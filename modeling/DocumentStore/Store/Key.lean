import DocumentStore.Double.Layout
import DocumentStore.Text.Quoted
import DocumentStore.Value.Basic

/-!
Keys: lists of typed parts, ordered part by part.

Parts of different kinds are ordered by kind, so an integer never meets a number. The order is total
on all parts, numbers with unusual bits included, and two keys are the same key when neither comes
first.
-/

namespace DocumentStore

inductive KeyPart where
  | bytes (bs : List UInt8)
  | string (s : String)
  | integer (n : Int64)
  | number (x : Double)
  | bool (b : Bool)

instance : Inhabited KeyPart := ⟨.bool false⟩

namespace KeyPart

/-- The part of a number: all NaNs give one part, and so do the two zeros. -/
def ofDouble (x : Double) : KeyPart := number x.canonical

def ofValue? : Value → Option KeyPart
  | .string s => some (string s)
  | .integer n => some (integer n)
  | .number x => some (ofDouble x)
  | .bool b => some (bool b)
  | .bytes bs => some (bytes bs)
  | .null | .list _ | .map _ => none

def rank : KeyPart → Nat
  | bytes _ => 0
  | string _ => 1
  | integer _ => 2
  | number _ => 3
  | bool _ => 4

def cmp : KeyPart → KeyPart → Ordering
  | bytes a, bytes b => compare a b
  | string a, string b => compare a b
  | integer a, integer b => compare a.toInt b.toInt
  | number a, number b => a.cmp b
  | bool a, bool b => compare a b
  | a, b => compare a.rank b.rank

instance : Ord KeyPart := ⟨cmp⟩

def same (a b : KeyPart) : Bool := compare a b == .eq

def text : KeyPart → String
  | bytes bs => Text.bracketed (bs.map fun b => toString b.toNat)
  | string s => Text.quoted s
  | integer n => toString n.toInt ++ "n"
  | number x => NumberLayout.plain.text x
  | bool b => toString b

def describe : KeyPart → String
  | bytes bs => "Bytes(" ++ (bytes bs).text ++ ")"
  | string s => "String(" ++ Text.quoted s ++ ")"
  | integer n => "Integer(" ++ toString n.toInt ++ ")"
  | number x => "Number(" ++ NumberLayout.explicit.text x ++ ")"
  | bool b => "Bool(" ++ toString b ++ ")"

theorem cmp_swap (a b : KeyPart) : cmp a b = (cmp b a).swap := by
  cases a <;> cases b
  case bytes.bytes x y => exact @Std.OrientedCmp.eq_swap _ compare _ x y
  case string.string x y => exact @Std.OrientedCmp.eq_swap _ compare _ x y
  case integer.integer x y => exact @Std.OrientedCmp.eq_swap _ compare _ x.toInt y.toInt
  case number.number x y => exact @Std.OrientedCmp.eq_swap _ compare _ x.rank y.rank
  case bool.bool x y => exact @Std.OrientedCmp.eq_swap _ compare _ x y
  all_goals rfl

/-- Parts are ordered by kind first. -/
theorem rank_le_of_cmp {a b : KeyPart} (h : (cmp a b).isLE) : a.rank ≤ b.rank := by
  cases a <;> cases b <;> simp_all [cmp, rank, Nat.compare_eq_ite_lt]

theorem cmp_of_rank_lt {a b : KeyPart} (h : a.rank < b.rank) : cmp a b = .lt := by
  cases a <;> cases b <;> simp_all [cmp, rank, Nat.compare_eq_ite_lt]

theorem cmp_isLE_trans {a b c : KeyPart} (hab : (cmp a b).isLE) (hbc : (cmp b c).isLE) :
    (cmp a c).isLE := by
  have hrank := Nat.le_trans (rank_le_of_cmp hab) (rank_le_of_cmp hbc)
  rcases Nat.lt_or_eq_of_le hrank with hlt | heq
  · rw [cmp_of_rank_lt hlt]; rfl
  · have hb : b.rank = a.rank :=
      Nat.le_antisymm (heq ▸ rank_le_of_cmp hbc) (rank_le_of_cmp hab)
    cases a <;> cases b <;> cases c
    case bytes.bytes.bytes x y z =>
      exact @Std.TransCmp.isLE_trans _ compare _ x y z hab hbc
    case string.string.string x y z =>
      exact @Std.TransCmp.isLE_trans _ compare _ x y z hab hbc
    case integer.integer.integer x y z =>
      exact @Std.TransCmp.isLE_trans _ compare _ x.toInt y.toInt z.toInt hab hbc
    case number.number.number x y z =>
      exact @Std.TransCmp.isLE_trans _ compare _ x.rank y.rank z.rank hab hbc
    case bool.bool.bool x y z =>
      exact @Std.TransCmp.isLE_trans _ compare _ x y z hab hbc
    all_goals simp [rank] at heq hb

instance : Std.TransOrd KeyPart where
  eq_swap := cmp_swap _ _
  isLE_trans := cmp_isLE_trans

end KeyPart

structure Key where
  parts : List KeyPart
deriving Inhabited

namespace Key

def cmp (a b : Key) : Ordering := compare a.parts b.parts

instance : Ord Key := ⟨cmp⟩

instance : Std.TransOrd Key where
  eq_swap {a b} := @Std.OrientedCmp.eq_swap _ compare _ a.parts b.parts
  isLE_trans {a b c} := @Std.TransCmp.isLE_trans _ compare _ a.parts b.parts c.parts

def same (a b : Key) : Bool := compare a b == .eq

def properlyExtends : List KeyPart → List KeyPart → Bool
  | _ :: _, [] => true
  | a :: as, b :: bs => a.same b && properlyExtends as bs
  | [], _ => false

/-- Whether a key lies under another: it begins with the parts of the other and has more of them. -/
def isUnder (key base : Key) : Bool := properlyExtends key.parts base.parts

def text (key : Key) : String := Text.bracketed (key.parts.map KeyPart.text)

end Key

end DocumentStore

import DocumentStore.Double.Layout
import DocumentStore.Text.Quoted
import DocumentStore.Value.Basic

/-!
The text of values: numbers without exponents, strings quoted, bytes in hexadecimal, lists between
brackets and documents between braces.
-/

namespace DocumentStore

mutual

def Value.text : Value → String
  | .null => "null"
  | .bool b => toString b
  | .integer n => toString n.toInt
  | .number x => NumberLayout.plain.text x
  | .string s => Text.quoted s
  | .bytes bs => "b\"" ++ String.join (bs.map Text.hexByte) ++ "\""
  | .list items => Text.bracketed (Value.itemTexts items)
  | .map d => Text.braced d.fieldTexts

def Value.itemTexts : List Value → List String
  | [] => []
  | v :: rest => v.text :: Value.itemTexts rest

def Fields.fieldTexts {bound : Option String} : Fields bound → List String
  | .nil => []
  | .cons name _ value rest => (Text.quoted name ++ ": " ++ value.text) :: rest.fieldTexts

end

def Document.text (d : Document) : String := Text.braced d.fieldTexts

end DocumentStore

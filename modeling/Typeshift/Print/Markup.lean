import Typeshift.Print.Literal
import Typeshift.Print.Place

/-! # Markup

Elements, fragments and their parts. What stands between two tags is written as it is, so text keeps
its blanks and line breaks. -/

namespace Typeshift.Print

open Script

/-- Parts of markup, one after the other. -/
def parts (ts : List (Tree Printed)) (place : Place) : Script := ts.flatMap (·.note place)

/-- The part of markup that a field holds. -/
def part (s : Slots Printed) (f : Field) : Script := (s.child f).note .markup

/-- The text of a part of markup. Its comments stand inside expressions, but for those of an empty
one. -/
def markupText (h : Head) (s : Slots Printed) (pending : Comments) : Script :=
  match h.tag? with
  | some .jsxElement =>
    part s .openingElement ++ parts (s.children .children) .markupChild
      ++ after "" (s.child? .closingElement) .markup
  | some .jsxOpeningElement =>
    text "<" ++ part s .name
      ++ (s.children .attributes).flatMap (fun t => space ++ t.note .markup)
      ++ text (if h.flag .isSelfClosing then " />" else ">")
  | some .jsxClosingElement => between "</" ">" (part s .name)
  | some .jsxFragment =>
    part s .openingFragment ++ parts (s.children .children) .markupChild
      ++ part s .closingFragment
  | some .jsxOpeningFragment => text "<>"
  | some .jsxClosingFragment => text "</>"
  | some .jsxAttribute => part s .name ++ after "=" (s.child? .value) .markupValue
  | some .jsxSpreadAttribute =>
    between "\x7b..." "\x7d" (expression (s.child .argument) .assignment)
  | some .jsxExpressionContainer =>
    between "\x7b" "\x7d" (expression (s.child .expression) .assignment)
  | some .jsxEmptyExpression => comments (.inside false) pending.inner
  | some .jsxSpreadChild => between "\x7b..." "\x7d" (expression (s.child .expression) .assignment)
  | some .jsxText => [.raw (h.raw?.getD (h.text .value))]
  | some .jsxIdentifier => text (h.text .name)
  | some .jsxMemberExpression => part s .object ++ text "." ++ part s .property
  | some .jsxNamespacedName => part s .nspace ++ text ":" ++ part s .name
  | _ => []

end Typeshift.Print

/-!
# Separated text

Texts written one after the other with a separator between neighbours.
-/

namespace MonkeyLang

/-- The texts in order, with `separator` between any two neighbours. -/
def separated (separator : String) : List String → String
  | [] => ""
  | [text] => text
  | text :: texts => text ++ separator ++ separated separator texts

@[simp] theorem separated_nil (separator : String) : separated separator [] = "" := rfl

@[simp] theorem separated_singleton (separator text : String) :
    separated separator [text] = text := rfl

theorem separated_cons_cons (separator s t : String) (texts : List String) :
    separated separator (s :: t :: texts) =
      s ++ separator ++ separated separator (t :: texts) := rfl

end MonkeyLang

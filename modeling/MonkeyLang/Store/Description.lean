import MonkeyLang.Store.Render
import MonkeyLang.Text.Quoted

/-!
# Descriptions

Texts that tell what a value, a key or a frame is, for somebody who looks for a mistake. Unlike
rendered values they show kinds, and strings are quoted.
-/

namespace MonkeyLang

/-- What a key is. -/
def Key.description : Key → String
  | .int value => "Integer(" ++ toString value.toInt ++ ")"
  | .bool value => "Boolean(" ++ toString value ++ ")"
  | .str text => "String(" ++ Quoted.text text ++ ")"

namespace Store

/-- What a value is. -/
def description (s : Store) : Value → String
  | .str text => "String(" ++ Quoted.text text ++ ")"
  | .builtin b => "Builtin(" ++ b.name ++ ")"
  | v => v.kind.name ++ "(" ++ s.render v ++ ")"

/-- What a frame is: how many names it binds and how many frames there are from it outwards. -/
def frameDescription (s : Store) (f : FrameId) : String :=
  "Environment \x7b bindings: " ++ toString (s.frame f).bindings.size ++ ", depth: " ++
    toString (s.depth f) ++ " \x7d"

end Store

end MonkeyLang

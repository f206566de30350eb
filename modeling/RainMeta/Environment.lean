import RainMeta.Text.Utf8

/-!
# Environments

* `Environment`: the variables that a program finds set.
* `Environment.value`: the value of one of them.
-/

namespace RainMeta

/-- The variables of an environment. -/
structure Environment where
  bindings : List (Text × Text)

/-- The value of a variable, empty if it is not set. Names are compared as bytes, so a name has
to have some. -/
def Environment.value (env : Environment) (name : Text) : Except EncodeError Text := do
  let key ← Utf8.encodeEscaped name
  let isKey (v : Text × Text) : Bool := match Utf8.encodeEscaped v.1 with
    | .ok b => b == key
    | .error _ => false
  return ((env.bindings.find? isKey).map Prod.snd).getD []

end RainMeta

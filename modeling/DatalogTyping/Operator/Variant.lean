import DatalogTyping.Fault

/-!
# Variants

An operator may stand for a family of variants, one for each kind that it tells
apart.
-/

namespace DatalogTyping

/-- The variant of the named operator, if it stands for a family of them and has
the one that is asked for. -/
def requireVariant {α : Type} (name : String) (overloaded : Bool) (missing : Fault)
    (variant? : Option α) : Except Fault α :=
  if overloaded then
    match variant? with
    | some variant => .ok variant
    | none => .error missing
  else .error (.notOverloaded name)

end DatalogTyping

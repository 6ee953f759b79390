import Mathlib.Init

/-!
# Deciding over the elements of a list

There are finitely many bytes and characters, so a statement about all of them can be decided by
going through them.  A statement about the elements of a list is decided by going through the list.
-/

namespace LiveSurface

instance decidableForallMemByte {p : UInt8 → Prop} [DecidablePred p] (l : List UInt8) :
    Decidable (∀ c ∈ l, p c) :=
  List.decidableBAll p l

instance decidableForallMemChar {p : Char → Prop} [DecidablePred p] (l : List Char) :
    Decidable (∀ c ∈ l, p c) :=
  List.decidableBAll p l

instance decidableForallMemCharOption {p : Char → Prop} [DecidablePred p] (o : Option Char) :
    Decidable (∀ c ∈ o, p c) :=
  Option.decidableForallMem o

instance decidableExistsMemChar {p : Char → Prop} [DecidablePred p] (l : List Char) :
    Decidable (∃ c ∈ l, p c) :=
  List.decidableBEx p l

end LiveSurface

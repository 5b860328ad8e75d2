import ResourcePruner.Text.Basic

/-!
# The order of texts

Lists stand in the order of their first difference, the shorter one first when it begins the other.
So texts are in the order of their symbols, and lists of names in that of their names.
-/

namespace ResourcePruner

instance {κ : Type} [StrictOrder κ] : StrictOrder (List κ) where
  decideLess := inferInstance
  decideSame := inferInstance
  irrefl := List.lt_irrefl
  trans := List.lt_trans
  connected not_less different :=
    (List.le_iff_lt_or_eq.mp (List.not_lt.mp not_less)).resolve_right different.symm

end ResourcePruner

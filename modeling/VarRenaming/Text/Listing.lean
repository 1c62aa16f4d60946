/-! # Listings

The text of a value that consists of items: the items in order, a comma and a blank between two of
them, all between an opening and a closing mark. -/

namespace VarRenaming.Text

/-- The listing of `items` between the marks `opening` and `closing`. -/
def listing (opening closing : String) (items : List String) : String :=
  opening ++ ", ".intercalate items ++ closing

theorem toList_listing (opening closing : String) (items : List String) :
    (listing opening closing items).toList =
      opening.toList ++ [',', ' '].intercalate (items.map String.toList) ++ closing.toList := by
  simp [listing, String.toList_intercalate]

end VarRenaming.Text

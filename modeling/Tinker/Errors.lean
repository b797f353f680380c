import Tinker.Lib.Exec

/-!
# Return codes, and a free that does not return

`return_t` of `tinker_api_errors.h`, in its order, and `mem_free` of a block that the pool has not
given out.
-/

namespace Tinker

open Tinker.Lib

inductive ReturnT
  | unknownError
  | noError
  | outOfMemory
  | sizeTooSmall
  | blockedRetry
  | memNotAligned
  | parametersNull
  | parametersInvalid
  | parametersOutOfRange
  | invalidContext
  | objectTableFull
  | invalidObject
  | wrongObjType
  | objectAddFailed
  | objectInInvalidState
  | semaphoreEmpty
  | timerCallbackMissing
  | shmWrongSize
  | alarmIdUnknown
  | unknownPipe
  | pipeFull
  | pipePolarityWrong
  | pipeReceiversFull
  | pipeEmpty
  | alarmAlreadyCancelled
  | deviceIdInvalid
  | deviceUserDataInvalid
  | deviceRegisterInvalid
  | deviceReadBadAddress
  | deviceWriteBadAddress
  | deviceOperationNotSupported
  | objectNameExistsInRegistry
  | objectNotAddedToRegistry
  | objectNotInRegistry
  | objectNotRetrievedFromRegistry
  | objectNotRemovedFromRegistry
  | noRootInterruptHandler
  | unexpectedInterrupt
  | unknownInterruptCause
  | unknownExternalInterruptVector
  | interruptNoExtVectorSpecified
  | pipeMessageSizeNotAligned
  | mmapNotAllowedAtZero
  | outOfProcessIds
  | invalidElf
  | errorUnknownSyscall
  deriving DecidableEq, Repr

/-- `mem_free` to the private pool of a process, of a pointer that is either null or a block of the
user pool. The user pool lies below the private one, so that the allocator takes the block for a
stray pointer and stops the machine. -/
def memFreeForeign {α : Type} : Option α → Exec Unit
  | none => .ok ()
  | some _ => .error .halted

end Tinker

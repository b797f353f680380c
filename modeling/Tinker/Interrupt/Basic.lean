import Tinker.Errors
import Tinker.Scheduler.Basic

/-!
# External interrupts

The way from the interrupt vector to the scheduler: `int_handle_external_vector`, the controller
tree of `intc.c`, the timer driver of `bcm2835_timer.c` and `bsp_scheduler_timeout`.

What lies beside this way is a parameter: what a device driver does with an interrupt, what
`obj_pipe_send_message` and the alarm manager do with it, and how a controller is acknowledged.
-/

namespace Tinker

open Tinker.Lib

mutual

inductive Intc
  | mk (id : ℕ) (isrs : ℕ → Isr)

/-- `intc_internal_t`: what hangs off a pin. -/
inductive Isr
  /-- Nothing has been added, or `EMPTY_DEVICE`. -/
  | empty
  | child (intc : Intc)
  | device (device : ℕ)
  | pipe (pipe : ℕ)
  | timer (timer : Option ℕ)

end

inductive TimerCallback
  | bspSchedulerTimeout
  | alarm
  deriving DecidableEq

/-- `bcm2835_timer_usr_data_t`. -/
structure TimerData where
  callback : Option TimerCallback
  number : ℕ

structure Machine where
  core : Core
  timers : ℕ → Option TimerData
  status : ℕ → Bool
  /-- What `get_cause` of each controller reports. -/
  pending : ℕ → Option ℕ

/-- What an interrupt leads to: the acknowledgement of a controller, the handler of a device,
`obj_pipe_send_message` for the pipe of a pin, and the callback of the alarm timer. -/
structure Drivers where
  ackCause : ℕ → ℕ → (ℕ → Option ℕ) → ℕ → Option ℕ
  deviceIsr : ℕ → ℕ → Machine → Exec (ReturnT × Machine)
  pipeSend : ℕ → ℕ → Machine → Exec (ReturnT × Machine)
  alarmCallback : Machine → Exec Machine

def intContextSwitchInterrupt (k : Core) : Exec Core :=
  schSetContextForNextThread k (threadGetState k.threads k.sched.currThread)

def bspSchedulerTimeout (m : Machine) : Exec Machine := do
  let core ← intContextSwitchInterrupt m.core
  return { m with core := core }

variable (drivers : Drivers)

def TimerCallback.call (m : Machine) : TimerCallback → Exec Machine
  | bspSchedulerTimeout => Tinker.bspSchedulerTimeout m
  | alarm => drivers.alarmCallback m

/-- Clear the status bit of the timer. A timer other than the four the hardware has is asserted not
to exist. -/
def bcm2835TimerCancel (m : Machine) (data : TimerData) : Exec Machine := do
  kernelAssert (data.number < 4)
  return { m with status := Function.update m.status data.number false }

def bcm2835TimerIsr (m : Machine) (t : ℕ) : Exec (ReturnT × Machine) :=
  match m.timers t with
  | some data => do
    let m ← bcm2835TimerCancel m data
    match data.callback with
    | some callback => do
      let m ← callback.call drivers m
      return (.noError, m)
    | none => return (.timerCallbackMissing, m)
  | none => return (.parametersInvalid, m)

def maxIsrs : ℕ := 256

mutual

/-- `intc_handle`, for a controller that is not null. The check of the cause lets `MAX_ISRS`
itself through, one more than there are pins. -/
def intcHandle (m : Machine) : Intc → Exec (ReturnT × Machine)
  | .mk id isrs =>
    match m.pending id with
    | some cause => do
      let (ret, m) ←
        if cause > maxIsrs then
          .ok (.unknownInterruptCause, m)
        else if cause = maxIsrs then
          .error .badPointer
        else
          isrHandle m cause (isrs cause)
      return (ret, { m with pending := drivers.ackCause id cause m.pending })
    | none => .ok (.unknownInterruptCause, m)

/-- The branches of `intc_handle` for what hangs off the pin. -/
def isrHandle (m : Machine) (cause : ℕ) : Isr → Exec (ReturnT × Machine)
  | .device d => drivers.deviceIsr d cause m
  | .child intc => intcHandle m intc
  | .pipe p => drivers.pipeSend p cause m
  | .timer (some t) => bcm2835TimerIsr drivers m t
  | .timer none => .ok (.unknownInterruptCause, m)
  | .empty => .ok (.unknownInterruptCause, m)

end

/-- The thread whose state is handed to the scheduler is the one that was current when the interrupt
came, and its state is read afterwards. -/
def intHandleExternalVector (root : Option Intc) (m : Machine) : Exec (ReturnT × Machine) := do
  let currentThread := m.core.sched.currThread
  let (ret, m) ← match root with
    | some intc => intcHandle drivers m intc
    | none => .ok (.noRootInterruptHandler, m)
  let core ← schSetContextForNextThread m.core (threadGetState m.core.threads currentThread)
  return (ret, { m with core := core })

end Tinker

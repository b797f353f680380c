import Tinker.Lib.Paired
import Tinker.Lib.Run
import Tinker.Objects.PipeSteps

/-!
# The network of pipes

A sending pipe lists its readers and a receiving pipe its senders. This file says what each
call does to these lists, and what holds of them in every network: a pipe may send exactly
if it has a list of readers, and no list of readers has a repetition, a pipe that was never
created, or the pipe itself.
-/

namespace Tinker

variable {messageSize thread messages : ℕ} {name : Name} {memory : Option ℕ}

open Tinker.Lib Function Pipe PipeSys

variable {k k' : PipeSys} {p q r : ℕ} {pipe : Pipe} {message : List UInt8} {result : ReturnT}

/-! ## The lists of a pipe -/

namespace PipeSys

def readersOf (k : PipeSys) (p : ℕ) : List ℕ := ((k.pipes p).map Pipe.readers).getD []

def sendersOf (k : PipeSys) (p : ℕ) : List ℕ := ((k.pipes p).map Pipe.senders).getD []

def isSender (k : PipeSys) (p : ℕ) : Bool := (k.pipes p).any pipeIsSender

def isReceiver (k : PipeSys) (p : ℕ) : Bool := (k.pipes p).any pipeIsReceiver

/-- The pipes that a send on the pipe delivers to: the readers that can receive, but none if the
message is for all readers and one of them can not. -/
def receivers (k : PipeSys) (p : ℕ) (sendKind : PipeSendKind) : List ℕ :=
  if k.isSender p ∧ (sendKind = .sendAll → k.refused (k.readersOf p) = []) then
    (k.readersOf p).filter k.canReceive
  else []

def hasReaders (k : PipeSys) (p : ℕ) : Bool := (k.pipes p).any (·.txData.readers.isSome)

def hasSenders (k : PipeSys) (p : ℕ) : Bool := (k.pipes p).any (·.rxData.senders.isSome)

end PipeSys

def Pipe.links (pipe : Pipe) : PipeDirection × Option (List ℕ) × Option (List ℕ) :=
  (pipe.direction, pipe.txData.readers, pipe.rxData.senders)

/-- No pipe has changed its links. -/
structure SameLinks (k k' : PipeSys) : Prop where
  links : ∀ p, (k'.pipes p).map Pipe.links = (k.pipes p).map Pipe.links
  brk : k'.pipeBrk = k.pipeBrk

namespace SameLinks

theorem refl (k : PipeSys) : SameLinks k k := ⟨fun _ => rfl, rfl⟩

theorem trans {a b c : PipeSys} (h : SameLinks a b) (h' : SameLinks b c) : SameLinks a c :=
  ⟨fun p => (h'.links p).trans (h.links p), h'.brk.trans h.brk⟩

theorem update {pipe' : Pipe} (hp : k.pipes p = some pipe) (links : pipe'.links = pipe.links)
    (stored : k'.pipes = update k.pipes p (some pipe')) (brk : k'.pipeBrk = k.pipeBrk) :
    SameLinks k k' := by
  refine ⟨fun q => ?_, brk⟩
  rw [stored]
  by_cases hq : q = p
  · subst hq
    simp [hp, links]
  · simp [hq]

theorem view {β : Type} (h : SameLinks k k')
    (f : PipeDirection × Option (List ℕ) × Option (List ℕ) → β)
    (p : ℕ) : (k'.pipes p).map (fun pipe => f pipe.links) =
      (k.pipes p).map fun pipe => f pipe.links := by
  have := congrArg (Option.map f) (h.links p)
  simpa [comp_def] using this

section

variable (h : SameLinks k k')
include h

theorem readersOf : k'.readersOf = k.readersOf :=
  funext fun p => congrArg (·.getD []) (h.view (fun l => l.2.1.getD []) p)

theorem sendersOf : k'.sendersOf = k.sendersOf :=
  funext fun p => congrArg (·.getD []) (h.view (fun l => l.2.2.getD []) p)

theorem any (f : PipeDirection × Option (List ℕ) × Option (List ℕ) → Bool) (p : ℕ) :
    ((k'.pipes p).any fun pipe => f pipe.links) =
      (k.pipes p).any fun pipe => f pipe.links := by
  have hview := h.view f p
  cases hk : k.pipes p <;> cases hk' : k'.pipes p <;> simp_all

theorem isSender (p : ℕ) : k'.isSender p = k.isSender p :=
  h.any (fun l => l.1 = .send ∨ l.1 = .sendReceive) p

theorem isReceiver (p : ℕ) : k'.isReceiver p = k.isReceiver p :=
  h.any (fun l => l.1 = .receive ∨ l.1 = .sendReceive) p

theorem hasReaders (p : ℕ) : k'.hasReaders p = k.hasReaders p :=
  h.any (fun l => l.2.1.isSome) p

theorem hasSenders (p : ℕ) : k'.hasSenders p = k.hasSenders p :=
  h.any (fun l => l.2.2.isSome) p

end

end SameLinks

/-! ## The calls that leave the links alone -/

@[simp] theorem Pipe.links_acknowledged : pipe.acknowledged.links = pipe.links := by
  simp [Pipe.links, Pipe.acknowledged]

@[simp] theorem Pipe.links_setBlocked (info : RxBlocked) :
    (pipe.setBlocked info).links = pipe.links := rfl

@[simp] theorem Pipe.links_setSendingThread (thread : Option ℕ) :
    (pipe.setSendingThread thread).links = pipe.links := rfl

theorem pipeWrite_links {pipe' : Pipe} (h : pipeWrite pipe message = .ok pipe') :
    pipe'.links = pipe.links := by
  obtain ⟨memory, rfl⟩ := pipeWrite_cases h
  simp [Pipe.links]

theorem pipeReceiveMessage_sameLinks (h : pipeReceiveMessage k r message = .ok k') :
    SameLinks k k' := by
  obtain ⟨pipe, pipe', hr, hwrite, hcases⟩ := pipeReceiveMessage_cases h
  have hlinks := pipeWrite_links hwrite
  rcases hcases with ⟨-, rfl⟩ | ⟨-, b, s, size, bytes, sys, -, -, -, -, rfl, -, -⟩
  · exact .update hr hlinks rfl rfl
  · exact .update hr (by simpa using hlinks) rfl rfl

theorem pipeDeliverAll_sameLinks {rs : List ℕ} (h : pipeDeliverAll k message rs = .ok k') :
    SameLinks k k' :=
  pipeDeliverAll_invariant h (.refl k) fun _ _ _ _ same _ hdeliver =>
    same.trans (pipeReceiveMessage_sameLinks hdeliver)

theorem objPipeReceiveMessage_sameLinks {pipeArg message messageSize : Option ℕ} {maxSize : ℕ}
    {blocking : Bool}
    (h : objPipeReceiveMessage k pipeArg thread message messageSize maxSize blocking =
      .ok (result, k')) : SameLinks k k' := by
  rcases objPipeReceiveMessage_cases h with ⟨-, rfl⟩ | ⟨p, b, s, pipe, -, -, -, hp, -, hcases⟩
  · exact .refl _
  rcases hcases with ⟨-, size, -, hcases⟩ | ⟨-, -, -, sys, rfl, -, -⟩
  · rcases hcases with ⟨-, -, rfl⟩ | ⟨-, -, bytes, sys, -, rfl, -, -⟩
    · exact ⟨fun _ => rfl, rfl⟩
    · exact .update hp links_acknowledged rfl rfl
  · exact .update hp (links_setBlocked _) rfl rfl

/-! ## What holds of every network -/

/-- Lists of readers without repetitions, without the pipe itself and without pointers that
have not been handed out. -/
structure ReadersOk (brk : ℕ) (readers : ℕ → List ℕ) : Prop where
  loopless : ∀ p, p ∉ readers p
  bound : ∀ p r, r ∈ readers p → r < brk
  nodup : ∀ p, (readers p).Nodup

namespace ReadersOk

variable {brk brk' : ℕ} {readers : ℕ → List ℕ}

theorem mono (ok : ReadersOk brk readers) (le : brk ≤ brk') : ReadersOk brk' readers :=
  ⟨ok.loopless, fun p r hr => (ok.bound p r hr).trans_le le, ok.nodup⟩

theorem enter (ok : ReadersOk brk readers) (ne : p ≠ r) (lt : r < brk) (new : r ∉ readers p) :
    ReadersOk brk (enter readers p r) := by
  refine ⟨fun q hq => ?_, fun q s hs => ?_, nodup_enter ok.nodup new⟩
  · rcases mem_enter.mp hq with hold | ⟨hqp, hqr⟩
    · exact ok.loopless q hold
    · exact ne (hqp.symm.trans hqr)
  rcases mem_enter.mp hs with hs | ⟨-, rfl⟩
  · exact ok.bound q s hs
  · exact lt

end ReadersOk

/-- The facts about a network of pipes that every call keeps. -/
structure NetOk (k : PipeSys) : Prop where
  fresh : ∀ q, k.pipeBrk ≤ q → k.pipes q = none
  /-- The pipes that may send are those with a list of readers. -/
  readers : ∀ p, k.hasReaders p = k.isSender p
  /-- Only pipes that may receive have a list of senders. -/
  senders : ∀ p, k.hasSenders p = true → k.isReceiver p = true
  lists : ReadersOk k.pipeBrk k.readersOf

theorem NetOk.lt_of_live (ok : NetOk k) (hp : k.pipes p = some pipe) : p < k.pipeBrk := by
  by_contra hlt
  rw [ok.fresh p (Nat.le_of_not_lt hlt)] at hp
  cases hp

theorem SameLinks.netOk (h : SameLinks k k') (ok : NetOk k) : NetOk k' where
  fresh q hq := by
    have hnone := ok.fresh q (h.brk ▸ hq)
    simpa [hnone] using h.links q
  readers p := by rw [h.hasReaders, h.isSender, ok.readers]
  senders p hp := by
    rw [h.isReceiver]
    exact ok.senders p (by rwa [h.hasSenders] at hp)
  lists := by
    rw [h.readersOf, h.brk]
    exact ok.lists

/-! ## Creating and opening -/

section AddPipe

variable (dead : k.pipes k.pipeBrk = none)
include dead

theorem addPipe_readersOf (h : pipe.readers = []) : (k.addPipe pipe).readersOf = k.readersOf := by
  funext q
  by_cases hq : q = k.pipeBrk
  · subst hq
    simp [PipeSys.readersOf, PipeSys.addPipe, h, dead]
  · simp [PipeSys.readersOf, PipeSys.addPipe, hq]

theorem addPipe_sendersOf (h : pipe.senders = []) : (k.addPipe pipe).sendersOf = k.sendersOf := by
  funext q
  by_cases hq : q = k.pipeBrk
  · subst hq
    simp [PipeSys.sendersOf, PipeSys.addPipe, h, dead]
  · simp [PipeSys.sendersOf, PipeSys.addPipe, hq]

theorem addPipe_any (f : Pipe → Bool) (h : (k.pipes p).any f = true) :
    ((k.addPipe pipe).pipes p).any f = true := by
  have hne : p ≠ k.pipeBrk := by
    rintro rfl
    simp [dead] at h
  simpa [PipeSys.addPipe, hne] using h

end AddPipe

/-- A pipe as it is set up: its lists are empty and go with its direction. -/
structure FreshPipe (pipe : Pipe) : Prop where
  readers : pipe.readers = []
  senders : pipe.senders = []
  hasReaders : pipe.txData.readers.isSome = pipeIsSender pipe
  hasSenders : pipe.rxData.senders.isSome = true → pipeIsReceiver pipe = true
  idle : pipe.txData.sendingThread = none ∧ pipe.rxData.blockedInfo.blockedOwner = none

theorem freshPipe_of_createSetup {direction : PipeDirection}
    (h : pipeCreateSetup name direction messageSize messages memory = some pipe) :
    FreshPipe pipe := by
  unfold pipeCreateSetup at h
  split at h
  · cases h
  · cases h
    exact ⟨rfl, rfl, rfl, fun h => (by cases h), rfl, rfl⟩
  · cases h
  · split at h
    · cases h
      refine ⟨rfl, ?_, rfl, fun _ => rfl, rfl, rfl⟩
      split <;> rfl
    · cases h
  split at h
  · cases h
    refine ⟨rfl, ?_, rfl, fun _ => rfl, rfl, rfl⟩
    split <;> rfl
  · cases h

theorem freshPipe_of_openSetup {direction : PipeDirection}
    (h : pipeOpenSetup name direction messageSize messages memory = some pipe) :
    FreshPipe pipe ∧ pipe.direction = direction ∧ direction ≠ .unknown ∧
      pipe.rxData.senders.isSome = pipeIsReceiver pipe := by
  unfold pipeOpenSetup at h
  split at h
  · cases h
  · cases h
    exact ⟨⟨rfl, rfl, rfl, fun h => (by cases h), rfl, rfl⟩, rfl, by decide, rfl⟩
  · cases h
  · cases h
    exact ⟨⟨rfl, rfl, rfl, fun _ => rfl, rfl, rfl⟩, rfl, by decide, rfl⟩
  cases h
  exact ⟨⟨rfl, rfl, rfl, fun _ => rfl, rfl, rfl⟩, rfl, by decide, rfl⟩

theorem NetOk.addPipe (ok : NetOk k) (new : FreshPipe pipe) : NetOk (k.addPipe pipe) where
  fresh q hq := by
    have hne : q ≠ k.pipeBrk := by
      rintro rfl
      exact absurd hq (Nat.not_succ_le_self _)
    simpa [PipeSys.addPipe, hne] using ok.fresh q (Nat.le_of_succ_le hq)
  readers p := by
    by_cases hp : p = k.pipeBrk
    · subst hp
      simpa [PipeSys.hasReaders, PipeSys.isSender, PipeSys.addPipe] using new.hasReaders
    · simpa [PipeSys.hasReaders, PipeSys.isSender, PipeSys.addPipe, hp] using ok.readers p
  senders p := by
    by_cases hp : p = k.pipeBrk
    · subst hp
      simpa [PipeSys.hasSenders, PipeSys.isReceiver, PipeSys.addPipe] using new.hasSenders
    · simpa [PipeSys.hasSenders, PipeSys.isReceiver, PipeSys.addPipe, hp] using ok.senders p
  lists := by
    rw [addPipe_readersOf (ok.fresh _ le_rfl) new.readers]
    exact ok.lists.mono (Nat.le_succ _)

namespace PipeSys

theorem hasSenders_of_mem (h : p ∈ k.sendersOf r) : k.hasSenders r = true := by
  unfold sendersOf at h
  cases hr : k.pipes r with
  | none => simp [hr] at h
  | some pipe =>
    cases hl : pipe.rxData.senders with
    | none => simp [hr, Pipe.senders, hl] at h
    | some senders => simp [hasSenders, hr, hl]

theorem any_modify {f : Pipe → Pipe} {g : Pipe → Bool} (h : ∀ pipe, g (f pipe) = g pipe) (q : ℕ) :
    ((k.modify p f).pipes q).any g = (k.pipes q).any g := by
  by_cases hq : q = p
  · subst hq
    cases hp : k.pipes q <;> simp [modify, hp, h]
  · simp [modify, hq]

theorem readersOf_addReader :
    (k.modify p (·.addReader r)).readersOf =
      if k.hasReaders p then enter k.readersOf p r else k.readersOf := by
  funext q
  by_cases hq : q = p
  · subst hq
    cases hp : k.pipes q with
    | none => simp [modify, readersOf, hasReaders, hp]
    | some pipe =>
      cases hl : pipe.txData.readers <;>
        simp [modify, readersOf, hasReaders, hp, hl, Pipe.readers, Pipe.addReader, enter]
  have hsame : (k.modify p (·.addReader r)).readersOf q = k.readersOf q := by
    simp [modify, readersOf, hq]
  rw [hsame]
  split
  · simp [enter, hq]
  · rfl

theorem sendersOf_addSender :
    (k.modify p (·.addSender r)).sendersOf =
      if k.hasSenders p then enter k.sendersOf p r else k.sendersOf := by
  funext q
  by_cases hq : q = p
  · subst hq
    cases hp : k.pipes q with
    | none => simp [modify, sendersOf, hasSenders, hp]
    | some pipe =>
      cases hl : pipe.rxData.senders <;>
        simp [modify, sendersOf, hasSenders, hp, hl, Pipe.senders, Pipe.addSender, enter]
  have hsame : (k.modify p (·.addSender r)).sendersOf q = k.sendersOf q := by
    simp [modify, sendersOf, hq]
  rw [hsame]
  split
  · simp [enter, hq]
  · rfl

@[simp] theorem sendersOf_addReader : (k.modify p (·.addReader r)).sendersOf = k.sendersOf := by
  funext q
  by_cases hq : q = p
  · subst hq
    cases hp : k.pipes q <;> simp [modify, sendersOf, hp, Pipe.senders, Pipe.addReader]
  · simp [modify, sendersOf, hq]

@[simp] theorem readersOf_addSender : (k.modify p (·.addSender r)).readersOf = k.readersOf := by
  funext q
  by_cases hq : q = p
  · subst hq
    cases hp : k.pipes q <;> simp [modify, readersOf, hp, Pipe.readers, Pipe.addSender]
  · simp [modify, readersOf, hq]

/-- The two networks have the same pipes, with the same directions and the same lists, apart
from what is entered in them. -/
structure SameFrame (k k' : PipeSys) : Prop where
  isSender : ∀ p, k'.isSender p = k.isSender p
  isReceiver : ∀ p, k'.isReceiver p = k.isReceiver p
  hasReaders : ∀ p, k'.hasReaders p = k.hasReaders p
  hasSenders : ∀ p, k'.hasSenders p = k.hasSenders p
  live : ∀ p, k'.pipes p = none ↔ k.pipes p = none
  brk : k'.pipeBrk = k.pipeBrk

theorem SameFrame.trans {a b c : PipeSys} (h : SameFrame a b) (h' : SameFrame b c) :
    SameFrame a c :=
  ⟨fun p => (h'.isSender p).trans (h.isSender p), fun p => (h'.isReceiver p).trans (h.isReceiver p),
    fun p => (h'.hasReaders p).trans (h.hasReaders p),
    fun p => (h'.hasSenders p).trans (h.hasSenders p), fun p => (h'.live p).trans (h.live p),
    h'.brk.trans h.brk⟩

theorem modify_eq_none_iff (f : Pipe → Pipe) (q : ℕ) :
    (k.modify p f).pipes q = none ↔ k.pipes q = none := by
  by_cases hq : q = p
  · subst hq
    simp [modify]
  · simp [modify, hq]

theorem sameFrame_addReader (k : PipeSys) (p r : ℕ) : SameFrame k (k.modify p (·.addReader r)) :=
  ⟨any_modify fun _ => rfl, any_modify fun _ => rfl,
    any_modify fun pipe => by simp [Pipe.addReader], any_modify fun _ => rfl,
    modify_eq_none_iff _, rfl⟩

theorem sameFrame_addSender (k : PipeSys) (p r : ℕ) : SameFrame k (k.modify p (·.addSender r)) :=
  ⟨any_modify fun _ => rfl, any_modify fun _ => rfl, any_modify fun _ => rfl,
    any_modify fun pipe => by simp [Pipe.addSender], modify_eq_none_iff _, rfl⟩

theorem sameFrame_link (k : PipeSys) (direction : PipeDirection) (no other : ℕ) :
    SameFrame k (pipeLink k direction no other) := by
  cases direction with
  | unknown => exact ⟨fun _ => rfl, fun _ => rfl, fun _ => rfl, fun _ => rfl, fun _ => .rfl, rfl⟩
  | send => exact (sameFrame_addSender _ _ _).trans (sameFrame_addReader _ _ _)
  | receive => exact (sameFrame_addReader _ _ _).trans (sameFrame_addSender _ _ _)
  | sendReceive =>
    exact (((sameFrame_addReader _ _ _).trans (sameFrame_addSender _ _ _)).trans
      (sameFrame_addReader _ _ _)).trans (sameFrame_addSender _ _ _)

end PipeSys

theorem PipeSys.SameFrame.netOk (frame : k.SameFrame k') (ok : NetOk k)
    (lists : ReadersOk k.pipeBrk k'.readersOf) : NetOk k' where
  fresh q hq := (frame.live q).mpr (ok.fresh q (frame.brk ▸ hq))
  readers p := by rw [frame.hasReaders, frame.isSender, ok.readers]
  senders p hp := by
    rw [frame.isReceiver]
    exact ok.senders p (by rwa [frame.hasSenders] at hp)
  lists := by rwa [frame.brk]

/-- A pipe that has just been set up, next to the pipe it is to be linked with. -/
structure NewPipe (k : PipeSys) (direction : PipeDirection) (no other : ℕ) : Prop where
  ne : no ≠ other
  /-- The two are not linked yet. -/
  unlinked : no ∉ k.readersOf other ∧ other ∉ k.readersOf no
  bound : no < k.pipeBrk ∧ other < k.pipeBrk
  hasReaders : k.hasReaders no = (direction = .send ∨ direction = .sendReceive)
  hasSenders : k.hasSenders no = (direction = .receive ∨ direction = .sendReceive)

namespace NewPipe

variable {direction : PipeDirection} {no other : ℕ}

theorem link_send (new : NewPipe k .send no other) :
    (pipeLink k .send no other).readersOf = enter k.readersOf no other ∧
      (pipeLink k .send no other).sendersOf =
        if k.hasSenders other then enter k.sendersOf other no else k.sendersOf := by
  have hno : (k.modify other (·.addSender no)).hasReaders no = true := by
    rw [(sameFrame_addSender k other no).hasReaders]
    simpa using new.hasReaders
  constructor
  · simp only [pipeLink, readersOf_addReader, hno, if_true, readersOf_addSender]
  · simp only [pipeLink, sendersOf_addReader, sendersOf_addSender]

theorem link_receive (new : NewPipe k .receive no other) :
    (pipeLink k .receive no other).readersOf =
        (if k.hasReaders other then enter k.readersOf other no else k.readersOf) ∧
      (pipeLink k .receive no other).sendersOf = enter k.sendersOf no other := by
  have hno : (k.modify other (·.addReader no)).hasSenders no = true := by
    rw [(sameFrame_addReader k other no).hasSenders]
    simpa using new.hasSenders
  constructor
  · simp only [pipeLink, readersOf_addReader, readersOf_addSender]
  · simp only [pipeLink, sendersOf_addReader, sendersOf_addSender, hno, if_true]

theorem link_sendReceive (new : NewPipe k .sendReceive no other) :
    (pipeLink k .sendReceive no other).readersOf =
        enter (if k.hasReaders other then enter k.readersOf other no else k.readersOf) no other ∧
      (pipeLink k .sendReceive no other).sendersOf =
        enter (if k.hasSenders other then enter k.sendersOf other no else k.sendersOf)
          no other := by
  have h₁ := sameFrame_addReader k other no
  have h₂ := h₁.trans (sameFrame_addSender _ other no)
  have h₃ := h₂.trans (sameFrame_addReader _ no other)
  have hreaders : k.hasReaders no = true := by simpa using new.hasReaders
  have hsenders : k.hasSenders no = true := by simpa using new.hasSenders
  constructor
  · simp only [pipeLink, readersOf_addSender, readersOf_addReader]
    rw [h₂.hasReaders, hreaders, if_pos rfl]
  simp only [pipeLink, sendersOf_addSender, sendersOf_addReader]
  rw [h₃.hasSenders, hsenders, if_pos rfl, h₁.hasSenders]

theorem lists (new : NewPipe k direction no other) (ok : ReadersOk k.pipeBrk k.readersOf) :
    ReadersOk k.pipeBrk (pipeLink k direction no other).readersOf := by
  obtain ⟨hout, hin⟩ := new.unlinked
  -- the entry that an open makes at the other pipe
  have hother : ReadersOk k.pipeBrk
      (if k.hasReaders other then enter k.readersOf other no else k.readersOf) := by
    split
    · exact ok.enter new.ne.symm new.bound.1 hout
    · exact ok
  cases direction with
  | unknown => exact ok
  | send =>
    rw [new.link_send.1]
    exact ok.enter new.ne new.bound.2 hin
  | receive =>
    rw [new.link_receive.1]
    exact hother
  | sendReceive =>
    rw [new.link_sendReceive.1]
    refine hother.enter new.ne new.bound.2 ?_
    split
    · rw [mem_enter]
      rintro (h | ⟨h, -⟩)
      · exact hin h
      · exact new.ne h
    · exact hin

end NewPipe

theorem NewPipe.mem_readersOf_link {direction : PipeDirection} {no other : ℕ}
    (new : NewPipe k direction no other) (h : r ∈ (pipeLink k direction no other).readersOf p) :
    r ∈ k.readersOf p ∨ (p = no ∧ r = other ∧ k.hasReaders no = true) ∨
      (p = other ∧ r = no ∧ k.hasSenders no = true ∧ k.hasReaders other = true) := by
  cases direction with
  | unknown => exact .inl h
  | send =>
    rw [new.link_send.1, mem_enter] at h
    exact h.imp_right fun h => .inl ⟨h.1, h.2, by simpa using new.hasReaders⟩
  | receive =>
    rw [new.link_receive.1] at h
    split at h
    next hr =>
      rw [mem_enter] at h
      exact h.imp_right fun h => .inr ⟨h.1, h.2, by simpa using new.hasSenders, hr⟩
    · exact .inl h
  | sendReceive =>
    rw [new.link_sendReceive.1, mem_enter] at h
    rcases h with h | h
    · split at h
      next hr =>
        rw [mem_enter] at h
        exact h.imp_right fun h => .inr ⟨h.1, h.2, by simpa using new.hasSenders, hr⟩
      · exact .inl h
    · exact .inr (.inl ⟨h.1, h.2, by simpa using new.hasReaders⟩)

theorem newPipe_of_openSetup {direction : PipeDirection} {other : ℕ} {otherPipe : Pipe}
    (ok : NetOk k) (hother : k.pipes other = some otherPipe)
    (setup : pipeOpenSetup name direction messageSize messages memory = some pipe) :
    NewPipe (k.addPipe pipe) direction k.pipeBrk other := by
  obtain ⟨fresh, hdir, -, hlist⟩ := freshPipe_of_openSetup setup
  have dead := ok.fresh _ le_rfl
  have hlt := ok.lt_of_live hother
  refine ⟨hlt.ne', ?_, ⟨Nat.lt_succ_self _, Nat.lt_succ_of_lt hlt⟩, ?_, ?_⟩
  · rw [addPipe_readersOf dead fresh.readers]
    refine ⟨fun hmem => (ok.lists.bound _ _ hmem).false, ?_⟩
    simp [PipeSys.readersOf, dead]
  · have := fresh.hasReaders
    simp [PipeSys.hasReaders, PipeSys.addPipe, this, pipeIsSender, hdir]
  · simp [PipeSys.hasSenders, PipeSys.addPipe, hlist, pipeIsReceiver, hdir]

/-! ## Sending and deleting -/

namespace PipeSys

variable {rs : List ℕ}

theorem readersOf_noteSender : (k.noteSender p rs).readersOf = k.readersOf := by
  funext q
  cases hq : k.pipes q <;> simp [readersOf, noteSender, hq, Pipe.readers, Pipe.addSenders]

theorem sendersOf_noteSender (h : k.hasSenders q = true) :
    (k.noteSender p rs).sendersOf q = k.sendersOf q ++ List.replicate (rs.count q) p := by
  unfold hasSenders at h
  cases hq : k.pipes q with
  | none => simp [hq] at h
  | some pipe =>
    cases hl : pipe.rxData.senders with
    | none => simp [hq, hl] at h
    | some senders => simp [sendersOf, noteSender, hq, Pipe.senders, Pipe.addSenders, hl]

theorem sameFrame_noteSender (k : PipeSys) (p : ℕ) (rs : List ℕ) :
    SameFrame k (k.noteSender p rs) := by
  refine ⟨fun q => ?_, fun q => ?_, fun q => ?_, fun q => ?_, fun q => ?_, rfl⟩ <;>
    cases hq : k.pipes q <;>
    simp [isSender, isReceiver, hasReaders, hasSenders, noteSender, hq, Pipe.addSenders,
      pipeIsSender, pipeIsReceiver]

theorem mem_sendersOf_noteSender : q ∈ (k.noteSender p rs).sendersOf r ↔
    q ∈ k.sendersOf r ∨ (q = p ∧ r ∈ rs ∧ k.hasSenders r = true) := by
  by_cases hr : k.hasSenders r = true
  · rw [sendersOf_noteSender hr, List.mem_append, List.mem_replicate,
      Nat.ne_zero_iff_zero_lt, List.count_pos_iff]
    simp [hr, and_comm]
  have hlist : ∀ k : PipeSys, ¬ k.hasSenders r = true → q ∉ k.sendersOf r :=
    fun k hno hmem => hno (hasSenders_of_mem hmem)
  have hno : ¬ (k.noteSender p rs).hasSenders r = true := by
    rwa [(sameFrame_noteSender k p rs).hasSenders]
  simp [hr, hlist _ hr, hlist _ hno]

end PipeSys

theorem PipeSys.readersOf_delete (reg : Registry ObjRef) :
    PipeSys.readersOf { k.withReg reg with pipes := update k.pipes p none } =
      update k.readersOf p [] := by
  funext q
  by_cases hq : q = p
  · subst hq
    simp [PipeSys.readersOf]
  · simp [PipeSys.readersOf, hq]

theorem NetOk.delete (ok : NetOk k) (reg : Registry ObjRef) :
    NetOk { k.withReg reg with pipes := update k.pipes p none } := by
  refine ⟨fun q hq => ?_, fun q => ?_, fun q => ?_, ?_⟩
  · by_cases hqp : q = p
    · simp [hqp]
    · simpa [hqp] using ok.fresh q hq
  · by_cases hqp : q = p
    · simp [PipeSys.hasReaders, PipeSys.isSender, hqp]
    · simpa [PipeSys.hasReaders, PipeSys.isSender, hqp] using ok.readers q
  · by_cases hqp : q = p
    · simp [PipeSys.hasSenders, hqp]
    · simpa [PipeSys.hasSenders, PipeSys.isReceiver, hqp] using ok.senders q
  -- no list has grown
  have hsub : ∀ q r, r ∈ update k.readersOf p [] q → r ∈ k.readersOf q := by
    intro q r hr
    by_cases hqp : q = p
    · simp [hqp] at hr
    · simpa [hqp] using hr
  rw [readersOf_delete]
  refine ⟨fun q hq => ok.lists.loopless q (hsub q q hq),
    fun q r hr => ok.lists.bound q r (hsub q r hr), fun q => ?_⟩
  by_cases hqp : q = p
  · simp [hqp]
  · simpa [hqp] using ok.lists.nodup q

/-! ## Every call -/

theorem NetOk.create {direction : PipeDirection} {room : Bool} (ok : NetOk k)
    (h : objCreatePipe k name direction messageSize messages memory room = .ok (result, k')) :
    NetOk k' := by
  rcases objCreatePipe_cases h with rfl | ⟨pipe, sys, reg, hsetup, -, rfl⟩
  · exact ok
  have same : SameLinks (k.addPipe pipe) (((k.addPipe pipe).withThreads sys).withReg reg) :=
    ⟨fun _ => rfl, rfl⟩
  exact same.netOk (ok.addPipe (freshPipe_of_createSetup hsetup))

theorem NetOk.openPipe {direction : PipeDirection} {room : Bool} (ok : NetOk k)
    (h : objOpenPipe k thread name direction messageSize messages memory room =
      .ok (result, k')) : NetOk k' := by
  rcases objOpenPipe_cases h with ⟨rfl, -, -⟩ |
    ⟨other, otherPipe, pipe, -, hother, -, hsetup, -, rfl⟩ | ⟨-, -, sys, reg, -, rfl⟩
  · exact ok
  · have added := ok.addPipe (freshPipe_of_openSetup hsetup).1
    exact (sameFrame_link _ _ _ _).netOk added
      ((newPipe_of_openSetup ok hother hsetup).lists added.lists)
  have same : SameLinks k ((k.withThreads sys).withReg reg) := ⟨fun _ => rfl, rfl⟩
  exact same.netOk ok

theorem sameLinks_blockedSend {rs : List ℕ} (thread : ℕ) (sys : ThreadSys)
    (hp : k.pipes p = some pipe) :
    SameLinks (k.noteSender p rs)
      (((k.noteSender p rs).modify p (·.setSendingThread (some thread))).withThreads sys) := by
  have hnoted : (k.noteSender p rs).pipes p = some (pipe.addSenders p (rs.count p)) := by
    simp [PipeSys.noteSender, hp]
  refine .update hnoted (links_setSendingThread (some thread)) ?_ rfl
  simp [PipeSys.modify, hnoted]

theorem NetOk.noteSender {rs : List ℕ} (ok : NetOk k) : NetOk (k.noteSender p rs) := by
  refine (sameFrame_noteSender _ _ _).netOk ok ?_
  rw [readersOf_noteSender]
  exact ok.lists

theorem NetOk.send {pipeArg : Option ℕ} {sendKind : PipeSendKind} {blocking : Bool} (ok : NetOk k)
    (h : objPipeSendMessage k pipeArg thread sendKind message blocking = .ok (result, k')) :
    NetOk k' := by
  rcases objPipeSendMessage_cases h with ⟨rfl, -⟩ | ⟨p, pipe, rfl, hp, -, hcases⟩
  · exact ok
  rcases hcases with ⟨-, -, ⟨-, -, rfl⟩ | ⟨-, -, sys, rfl, -, -⟩⟩ | ⟨-, -, hdeliver⟩
  · exact ok
  · exact (sameLinks_blockedSend thread sys hp).netOk ok.noteSender
  · exact (pipeDeliverAll_sameLinks hdeliver).netOk ok

/-- Every call keeps what holds of every network. -/
theorem NetOk.step {c : PipeCall} (ok : NetOk k) (h : c.apply k = .ok (result, k')) :
    NetOk k' := by
  cases c with
  | createPipe name direction messageSize messages memory room => exact ok.create h
  | openPipe thread name direction messageSize messages memory room => exact ok.openPipe h
  | sendMessage pipe thread sendKind message block => exact ok.send h
  | receiveMessage pipe thread message messageSize maxSize block =>
    exact (objPipeReceiveMessage_sameLinks h).netOk ok
  | deletePipe pipe =>
    rcases objDeletePipe_cases h with rfl | ⟨p, pipe, -, -, rfl⟩
    · exact ok
    · exact ok.delete _
  | elsewhere sys =>
    cases h
    have same : SameLinks k (k.withThreads sys) := ⟨fun _ => rfl, rfl⟩
    exact same.netOk ok

theorem netOk_of_none (start : ∀ p, k.pipes p = none) : NetOk k := by
  have hreaders : ∀ p, k.readersOf p = [] := fun p => by simp [PipeSys.readersOf, start]
  refine ⟨fun q _ => start q, fun p => ?_, fun p hp => ?_, ⟨fun p => ?_, fun p r hr => ?_,
    fun p => ?_⟩⟩
  · simp [PipeSys.hasReaders, PipeSys.isSender, start]
  · simp [PipeSys.hasSenders, start] at hp
  · simp [hreaders]
  · simp [hreaders] at hr
  · simp [hreaders]

end Tinker

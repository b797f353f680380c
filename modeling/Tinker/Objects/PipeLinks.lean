import Tinker.Objects.PipeNet

/-!
# The links between pipes

Each link is meant to be entered on both sides, once, between a pipe that may send and one that may
receive. This is so as long as every pipe that is opened has the lists that the new links are
entered in, no blocking send to all readers finds one that can not receive (it would be entered as
a sender a second time), and only pipes without links are deleted. `LinkOk` says so, and is exact.
-/

namespace Tinker

variable {direction : PipeDirection}

open Tinker.Lib Function PipeSys PipeCall

variable {k k' : PipeSys} {p q r : ℕ} {pipe : Pipe} {message : List UInt8} {result : ReturnT}

/-- The two sides of every link agree; it leads from a live pipe that may send to a live pipe
that may receive. -/
structure LinkInv (k : PipeSys) : Prop where
  paired : Paired k.readersOf k.sendersOf
  polarity : ∀ p r, r ∈ k.readersOf p → k.isSender p = true ∧ k.isReceiver r = true

theorem SameLinks.linkInv (h : SameLinks k k') : LinkInv k' ↔ LinkInv k := by
  constructor
  · rintro ⟨paired, polarity⟩
    rw [h.readersOf, h.sendersOf] at paired
    refine ⟨paired, fun p r hr => ?_⟩
    rw [← h.isSender, ← h.isReceiver]
    exact polarity p r (by rwa [h.readersOf])
  rintro ⟨paired, polarity⟩
  refine ⟨by rwa [h.readersOf, h.sendersOf], fun p r hr => ?_⟩
  rw [h.isSender, h.isReceiver]
  exact polarity p r (by rwa [h.readersOf] at hr)

theorem LinkInv.addPipe (inv : LinkInv k) (ok : NetOk k) (new : FreshPipe pipe) :
    LinkInv (k.addPipe pipe) := by
  have dead := ok.fresh _ le_rfl
  refine ⟨?_, fun p r hr => ?_⟩
  · rw [addPipe_readersOf dead new.readers, addPipe_sendersOf dead new.senders]
    exact inv.paired
  rw [addPipe_readersOf dead new.readers] at hr
  obtain ⟨hp, hr⟩ := inv.polarity p r hr
  exact ⟨addPipe_any dead _ hp, addPipe_any dead _ hr⟩

/-! ## Opening -/

/-- The list that the new link is entered in at the pipe that is opened is there. When it is
opened for receiving, its direction guarantees that. -/
def OpenOk (k : PipeSys) (direction : PipeDirection) (other : ℕ) : Prop :=
  match direction with
  | .send => k.hasSenders other = true
  | .sendReceive => k.hasReaders other = true ∧ k.hasSenders other = true
  | .receive => True
  | .unknown => True

instance (k : PipeSys) (direction : PipeDirection) (other : ℕ) :
    Decidable (OpenOk k direction other) := by
  unfold OpenOk
  split <;> infer_instance

theorem NewPipe.paired_iff {no other : ℕ} (new : NewPipe k direction no other)
    (paired : Paired k.readersOf k.sendersOf)
    (receive : direction = .receive → k.hasReaders other = true) :
    Paired (pipeLink k direction no other).readersOf (pipeLink k direction no other).sendersOf ↔
      OpenOk k direction other := by
  obtain ⟨hout, hin⟩ := new.unlinked
  cases direction with
  | unknown => exact iff_of_true paired trivial
  | send =>
    rw [new.link_send.1, new.link_send.2, OpenOk]
    by_cases hs : k.hasSenders other = true
    · rw [if_pos hs]
      exact iff_of_true (paired.link hin) hs
    rw [if_neg hs]
    exact iff_of_false (paired.not_link_out hin) hs
  | receive =>
    rw [new.link_receive.1, new.link_receive.2, if_pos (receive rfl)]
    exact iff_of_true (paired.link hout) trivial
  | sendReceive =>
    rw [new.link_sendReceive.1, new.link_sendReceive.2, OpenOk]
    by_cases hr : k.hasReaders other = true
    · rw [if_pos hr]
      -- the link from the other pipe to the new one is complete
      have paired' := paired.link hout
      have hin' : other ∉ enter k.readersOf other no no := by
        rw [mem_enter]
        rintro (h | ⟨h, -⟩)
        · exact hin h
        · exact new.ne h
      by_cases hs : k.hasSenders other = true
      · rw [if_pos hs, enter_comm k.sendersOf new.ne.symm]
        exact iff_of_true (paired'.link hin') ⟨hr, hs⟩
      rw [if_neg hs]
      exact iff_of_false (paired'.not_link_out hin') fun h => hs h.2
    rw [if_neg hr]
    refine iff_of_false (fun h => ?_) fun h => hr h.1
    -- the new pipe lists the other one as a sender, which does not list it as a reader
    have hmem := (h.symm other no).mpr (mem_enter.mpr (.inr ⟨rfl, rfl⟩))
    rw [mem_enter] at hmem
    rcases hmem with hmem | ⟨hmem, -⟩
    · exact hout hmem
    · exact new.ne hmem.symm

theorem NewPipe.linkInv_iff {no other : ℕ} (new : NewPipe k direction no other) (inv : LinkInv k)
    (ok : NetOk k) (receive : direction = .receive → k.hasReaders other = true) :
    LinkInv (pipeLink k direction no other) ↔ OpenOk k direction other := by
  have frame := sameFrame_link k direction no other
  constructor
  · exact fun h => (new.paired_iff inv.paired receive).mp h.paired
  intro hok
  have paired := (new.paired_iff inv.paired receive).mpr hok
  refine ⟨paired, fun p r hr => ?_⟩
  rw [frame.isSender, frame.isReceiver]
  rcases new.mem_readersOf_link hr with hold | ⟨rfl, rfl, hno⟩ | ⟨rfl, rfl, hno, hother⟩
  · exact inv.polarity p r hold
  · refine ⟨(ok.readers p).symm.trans hno, ok.senders r ?_⟩
    -- the other pipe lists the new one, so it has a list
    have hmem := (paired.symm p r).mp hr
    have hsome := hasSenders_of_mem hmem
    rwa [frame.hasSenders] at hsome
  · exact ⟨(ok.readers p).symm.trans hother, ok.senders r hno⟩

/-! ## Sending and deleting -/

/-- A reader that is noted once more lists the pipe twice. -/
theorem LinkInv.not_noteSender {rs : List ℕ} (inv : LinkInv k) (hr : r ∈ rs)
    (hreader : r ∈ k.readersOf p) : ¬ LinkInv (k.noteSender p rs) := by
  intro inv'
  have hsender : p ∈ k.sendersOf r := (inv.paired.symm p r).mp hreader
  have hnodup := inv'.paired.inn_nodup r
  rw [sendersOf_noteSender (hasSenders_of_mem hsender)] at hnodup
  have hcount : rs.count r ≠ 0 := Nat.pos_iff_ne_zero.mp (List.count_pos_iff.mpr hr)
  exact (List.disjoint_of_nodup_append hnodup) hsender (by simp [hcount])

theorem LinkInv.delete_iff (inv : LinkInv k) (ok : NetOk k) (reg : Registry ObjRef) :
    LinkInv { k.withReg reg with pipes := update k.pipes p none } ↔
      k.readersOf p = [] ∧ k.sendersOf p = [] := by
  have hreaders := readersOf_delete (k := k) (p := p) reg
  have hsenders : sendersOf { k.withReg reg with
      pipes := update k.pipes p none } = update k.sendersOf p [] := by
    funext q
    by_cases hq : q = p
    · subst hq
      simp [sendersOf]
    · simp [sendersOf, hq]
  constructor
  · rintro ⟨paired, -⟩
    rw [hreaders, hsenders] at paired
    exact (inv.paired.clear_iff (ok.lists.loopless p)).mp paired
  intro hnone
  have paired := (inv.paired.clear_iff (ok.lists.loopless p)).mpr hnone
  refine ⟨by rwa [hreaders, hsenders], fun q r hr => ?_⟩
  rw [hreaders] at hr
  have hq : q ≠ p := by
    rintro rfl
    simp at hr
  rw [update_of_ne hq] at hr
  have hrp : r ≠ p := by
    rintro rfl
    have := (inv.paired.symm q r).mp hr
    rw [hnone.2] at this
    cases this
  have hpol := inv.polarity q r hr
  simpa [isSender, isReceiver, hq, hrp] using hpol

/-! ## Runs -/

/-- The calls that keep the two sides of every link in agreement. An open that succeeds finds
the lists its links are entered in; a blocking send to all readers finds them all able to
receive; a pipe that is deleted has no links. -/
def PipeCall.LinkOk (k : PipeSys) : PipeCall → Prop
  | .openPipe _ name direction messageSize messages memory _ =>
    ∀ entry ∈ k.reg.registry (registryKey name), ∀ other ∈ entry.pipe?,
      ∀ otherPipe ∈ k.pipes other, pipeCheckDirection direction otherPipe = .noError →
        (pipeOpenSetup name direction messageSize messages memory).isSome →
        OpenOk k direction other
  | .sendMessage (some p) _ .sendAll _ true =>
    k.isSender p = true → k.refused (k.readersOf p) = []
  | .deletePipe (some p) => k.readersOf p = [] ∧ k.sendersOf p = []
  | _ => True

instance (k : PipeSys) (c : PipeCall) : Decidable (c.LinkOk k) := by
  unfold LinkOk
  split <;> infer_instance

/-- The link invariant, with what holds of every network. -/
def Linked (k : PipeSys) : Prop := LinkInv k ∧ NetOk k

theorem SameLinks.linkInv_iff {ok : Prop} (same : SameLinks k k') (linked : Linked k) (h : ok) :
    LinkInv k' ↔ ok :=
  iff_of_true (same.linkInv.mpr linked.1) h

theorem Linked.create {name : Name} {messageSize messages : ℕ} {memory : Option ℕ} {room : Bool}
    (linked : Linked k)
    (h : objCreatePipe k name direction messageSize messages memory room = .ok (result, k')) :
    LinkInv k' := by
  rcases objCreatePipe_cases h with rfl | ⟨pipe, sys, reg, hsetup, -, rfl⟩
  · exact linked.1
  have same : SameLinks (k.addPipe pipe) (((k.addPipe pipe).withThreads sys).withReg reg) :=
    ⟨fun _ => rfl, rfl⟩
  exact same.linkInv.mpr (linked.1.addPipe linked.2 (freshPipe_of_createSetup hsetup))

theorem Linked.openPipe {name : Name} {thread messageSize messages : ℕ} {memory : Option ℕ}
    {room : Bool} (linked : Linked k)
    (h : objOpenPipe k thread name direction messageSize messages memory room = .ok (result, k')) :
    LinkInv k' ↔
      (openPipe thread name direction messageSize messages memory room).LinkOk k := by
  rcases objOpenPipe_cases h with ⟨rfl, -, hfail⟩ |
    ⟨other, otherPipe, pipe, hreg, hother, hcheck, hsetup, -, rfl⟩ | ⟨hreg, -, sys, reg, -, rfl⟩
  · refine (SameLinks.refl _).linkInv_iff linked ?_
    intro entry hreg other hentry otherPipe hother hcheck hsetup
    cases entry with
    | sema id | timer id | shm id => cases hentry
    | pipe id =>
      obtain rfl := Option.some.inj hentry
      rw [hfail id otherPipe hreg hother hcheck] at hsetup
      cases hsetup
  · obtain ⟨fresh, -⟩ := freshPipe_of_openSetup hsetup
    have new := newPipe_of_openSetup linked.2 hother hsetup
    have hk : ∀ g : Pipe → Bool, ((k.addPipe pipe).pipes other).any g = (k.pipes other).any g := by
      intro g
      simp [addPipe, new.ne.symm]
    have hreceive : direction = .receive → (k.addPipe pipe).hasReaders other = true := by
      rintro rfl
      have hsender : k.isSender other = true := by
        unfold pipeCheckDirection at hcheck
        dsimp only at hcheck
        split at hcheck
        next hsender => simp [isSender, hother, hsender]
        · cases hcheck
      rw [hasReaders, hk]
      exact (linked.2.readers other).trans hsender
    rw [new.linkInv_iff (linked.1.addPipe linked.2 fresh) (linked.2.addPipe fresh) hreceive]
    have hlists : OpenOk (k.addPipe pipe) direction other ↔ OpenOk k direction other := by
      unfold OpenOk hasReaders hasSenders
      simp only [hk]
    simp [hlists, LinkOk, hreg, hother, hcheck, hsetup, ObjRef.pipe?]
  have same : SameLinks k ((k.withThreads sys).withReg reg) := ⟨fun _ => rfl, rfl⟩
  refine same.linkInv_iff linked ?_
  simp [LinkOk, hreg]

theorem Linked.send {pipeArg : Option ℕ} {thread : ℕ} {sendKind : PipeSendKind} {blocking : Bool}
    (linked : Linked k)
    (h : objPipeSendMessage k pipeArg thread sendKind message blocking = .ok (result, k')) :
    LinkInv k' ↔ (sendMessage pipeArg thread sendKind message blocking).LinkOk k := by
  rcases objPipeSendMessage_cases h with
    ⟨rfl, ⟨-, rfl⟩ | ⟨-, p, pipe, rfl, hp, hdir⟩⟩ | ⟨p, pipe, rfl, hp, hsender, hcases⟩
  · exact (SameLinks.refl _).linkInv_iff linked trivial
  · refine (SameLinks.refl _).linkInv_iff linked ?_
    have hno : ¬ k'.isSender p = true := by simp [isSender, hp, hdir]
    cases sendKind <;> cases blocking <;> first | trivial | exact fun h => absurd h hno
  have hreaders : pipe.readers = k.readersOf p := by simp [readersOf, hp]
  have hsends : k.isSender p = true := by simp [isSender, hp, hsender]
  rcases hcases with ⟨rfl, hrefused, hcases⟩ | ⟨-, hall, hdeliver⟩
  · rcases hcases with ⟨rfl, -, rfl⟩ | ⟨rfl, -, sys, rfl, -, -⟩
    · exact (SameLinks.refl _).linkInv_iff linked trivial
    rw [hreaders] at hrefused ⊢
    -- the pipe is noted as a sender a second time
    refine iff_of_false ?_ fun hok => hrefused (hok hsends)
    rw [(sameLinks_blockedSend thread sys hp).linkInv]
    obtain ⟨r, hr⟩ := List.exists_mem_of_ne_nil _ hrefused
    exact linked.1.not_noteSender hr (List.mem_of_mem_filter hr)
  refine (pipeDeliverAll_sameLinks hdeliver).linkInv_iff linked ?_
  cases sendKind with
  | sendAvailable => cases blocking <;> trivial
  | sendAll =>
    cases blocking with
    | false => trivial
    | true => exact fun _ => refused_eq_nil_iff.mpr (hreaders ▸ hall rfl)

theorem Linked.delete {pipeArg : Option ℕ} (linked : Linked k)
    (h : objDeletePipe k pipeArg = .ok (result, k')) :
    LinkInv k' ↔ (deletePipe pipeArg).LinkOk k := by
  cases pipeArg with
  | none =>
    cases h
    exact (SameLinks.refl _).linkInv_iff linked trivial
  | some p =>
    obtain ⟨pipe, -, h⟩ := Exec.of_bind h
    obtain ⟨_, -, h⟩ := Exec.of_bind h
    cases h
    exact linked.1.delete_iff linked.2 _

/-- Every call keeps the link invariant exactly if it meets `LinkOk`. -/
theorem Linked.step {c : PipeCall} (linked : Linked k) (h : c.apply k = .ok (result, k')) :
    LinkInv k' ↔ c.LinkOk k := by
  cases c with
  | createPipe name direction messageSize messages memory room =>
    exact iff_of_true (linked.create h) trivial
  | openPipe thread name direction messageSize messages memory room => exact linked.openPipe h
  | sendMessage pipe thread sendKind message block => exact linked.send h
  | receiveMessage pipe thread message messageSize maxSize block =>
    exact (objPipeReceiveMessage_sameLinks h).linkInv_iff linked trivial
  | deletePipe pipe => exact linked.delete h
  | elsewhere sys =>
    cases h
    have same : SameLinks k (k.withThreads sys) := ⟨fun _ => rfl, rfl⟩
    exact same.linkInv_iff linked trivial

theorem linked_of_none (start : ∀ p, k.pipes p = none) : Linked k := by
  have hreaders : ∀ p, k.readersOf p = [] := fun p => by simp [readersOf, start]
  have hsenders : ∀ p, k.sendersOf p = [] := fun p => by simp [sendersOf, start]
  refine ⟨⟨⟨fun p r => ?_, fun p => ?_, fun p => ?_⟩, fun p r hr => ?_⟩, netOk_of_none start⟩
  · simp [hreaders, hsenders]
  · simp [hreaders]
  · simp [hsenders]
  · simp [hreaders] at hr

/-- Along every run whose calls meet `LinkOk` the two sides of every link agree; and in each
state of such a run, a further call keeps that exactly if it meets `LinkOk`. -/
theorem linkInv_of_run {calls : List PipeCall} (start : ∀ p, k.pipes p = none)
    (run : Run PipeCall.step PipeCall.LinkOk k calls k') :
    LinkInv k' ∧ ∀ c result k'', PipeCall.apply k' c = .ok (result, k'') →
      (LinkInv k'' ↔ PipeCall.LinkOk k' c) := by
  have linked : Linked k' := by
    refine run.invariant (linked_of_none start) fun k c k' linked ok hstep => ?_
    obtain ⟨result, happly⟩ := PipeCall.step_eq_ok hstep
    exact ⟨(linked.step happly).mpr ok, linked.2.step happly⟩
  exact ⟨linked.1, fun c result k'' happly => linked.step happly⟩

/-- A pipe is created and opened in both directions by two others, a message goes to both, and
a pipe that nobody opened is deleted. -/
theorem linkInv_of_run_both : ∃ k k', PipeSys.boot = .ok k ∧
    Run PipeCall.step PipeCall.LinkOk k
      [.createPipe [97] .sendReceive 4 2 (some 4096) true,
        .openPipe 1 [97] .sendReceive 4 2 (some 8192) true,
        .openPipe 2 [97] .receive 4 2 (some 12288) true,
        .sendMessage (some 0) 3 .sendAll [1, 2] true,
        .createPipe [98] .send 0 0 none true, .deletePipe (some 3)] k' ∧
    k'.readersOf 0 = [1, 2] ∧ LinkInv k' := by
  refine exists_run_from_and (fun k => k.readersOf 0 = [1, 2]) (by decide +kernel)
    fun k k' start run hreaders => ?_
  exact ⟨hreaders, (linkInv_of_run (pipes_of_boot start) run).1⟩

/-- A receiving pipe is created and opened for sending, and the pipe that was opened is deleted. The
receiving pipe still lists it as a sender. -/
theorem not_linkInv : ∃ k k', (∀ p, k.pipes p = none) ∧
    Run PipeCall.step (fun _ _ => True) k
      [.createPipe [97] .receive 4 2 (some 4096) true, .openPipe 1 [97] .send 4 2 none true,
        .deletePipe (some 1)] k' ∧
    1 ∈ k'.sendersOf 0 ∧ k'.pipes 1 = none ∧ ¬ LinkInv k' := by
  obtain ⟨k, k', start, run, hlast⟩ := exists_run_from PipeSys.boot PipeCall.step
    (fun _ _ => True)
    [.createPipe [97] .receive 4 2 (some 4096) true, .openPipe 1 [97] .send 4 2 none true,
      .deletePipe (some 1)]
    (fun k => 1 ∈ k.sendersOf 0 ∧ (k.pipes 1).isNone) (by decide +kernel)
  obtain ⟨hsender, hnone⟩ := of_decide_eq_true hlast
  have hdead := Option.isNone_iff_eq_none.mp hnone
  refine ⟨k, k', pipes_of_boot start, run, hsender, hdead, fun inv => ?_⟩
  have hpolarity := (inv.polarity 1 0 ((inv.paired.symm 1 0).mpr hsender)).1
  simp [PipeSys.isSender, hdead] at hpolarity

end Tinker

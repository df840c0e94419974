/-
  What processes have stored.

  `Stored` is memory as its processes fill it, whatever the kernel does with their pages.  A
  `History` is a run of requests from a fresh kernel, with what they have stored: the bytes of
  each store that returns, and those that a copy gets copied, also if it fails in the end
  (`Kernel.written`).  What the steps, the reads and the writes of a course preserve about a
  kernel and the bytes stored, holds of every history (`Course.carries`).
-/
import DemandPaging.Proofs.Agreement
import DemandPaging.Proofs.Operated

namespace DemandPaging

/-- The byte that a process last stored at an address, if it has stored any there. -/
abbrev Stored := Pid → Nat → Option UInt8

namespace Stored

variable {s : Stored} {pid q : Pid} {vaddr pageSize offset start : Nat} {v w : Vpn}
  {bytes more : Bytes} {log log' : List Access}

/-- Bytes stored one after another from an address on. -/
def put (s : Stored) (pid : Pid) (vaddr : Nat) (bytes : Bytes) : Stored := fun q a =>
  if q = pid ∧ vaddr ≤ a then bytes[a - vaddr]?.or (s q a) else s q a

/-- What is stored after accesses to memory. -/
def after (s : Stored) (log : List Access) : Stored :=
  log.foldl (fun s a => if a.write then s.put a.pid a.vaddr a.bytes else s) s

/-- Process `pid` has stored a byte in its page `v`. -/
def Written (s : Stored) (pageSize : Nat) (pid : Pid) (v : Vpn) : Prop :=
  ∃ a, pageOf pageSize a = v ∧ (s pid a).isSome = true

@[simp] theorem put_nil : s.put pid vaddr [] = s := by
  funext q a
  simp [put]

theorem put_append : (s.put pid vaddr bytes).put pid (vaddr + bytes.length) more =
    s.put pid vaddr (bytes ++ more) := by
  funext q a
  unfold put
  by_cases hq : q = pid ∧ vaddr ≤ a
  · rw [if_pos hq, if_pos hq, List.getElem?_append]
    by_cases hlow : a < vaddr + bytes.length
    · rw [if_neg (by omega), if_pos (by omega)]
    · have hnone : bytes[a - vaddr]? = none := List.getElem?_eq_none (by omega)
      rw [if_pos ⟨hq.1, by omega⟩, if_neg (by omega), hnone, Option.none_or, Nat.sub_add_eq]
  · rw [if_neg hq, if_neg hq, if_neg fun hlow => hq ⟨hlow.1, by omega⟩]

theorem put_inside {i : Nat} {b : UInt8} (hb : bytes[i]? = some b) :
    s.put pid vaddr bytes pid (vaddr + i) = some b := by
  rw [put, if_pos ⟨rfl, Nat.le_add_right _ _⟩, Nat.add_sub_cancel_left, hb, Option.some_or]

theorem put_outside {a : Nat} (hout : ¬ (q = pid ∧ vaddr ≤ a ∧ a < vaddr + bytes.length)) :
    s.put pid vaddr bytes q a = s q a := by
  unfold put
  split
  · next hq =>
    have hbehind : bytes.length ≤ a - vaddr :=
      Nat.not_lt.1 fun hlt => hout ⟨hq.1, hq.2, by omega⟩
    rw [List.getElem?_eq_none hbehind, Option.none_or]
  · rfl

/-- A byte is stored where it has been put, and where one was. -/
theorem isSome_put {a : Nat} : (s.put pid vaddr bytes q a).isSome = true ↔
    (q = pid ∧ vaddr ≤ a ∧ a < vaddr + bytes.length) ∨ (s q a).isSome = true := by
  unfold put
  split
  · next hq =>
    rw [Option.isSome_or, Bool.or_eq_true, isSome_getElem?]
    refine or_congr_left ⟨fun hlt => ⟨hq.1, hq.2, ?_⟩, fun hin => ?_⟩
    · omega
    · omega
  · next hq =>
    refine ⟨.inr, fun hin => hin.resolve_left fun hnew => hq ⟨hnew.1, hnew.2.1⟩⟩

/-- Bytes put into a page write it, and no other page. -/
theorem written_put (hsome : 0 < bytes.length) (hfits : offset + bytes.length ≤ pageSize) :
    (s.put pid (v * pageSize + offset) bytes).Written pageSize q w ↔
      (q = pid ∧ w = v) ∨ s.Written pageSize q w := by
  unfold Written
  constructor
  · rintro ⟨a, ha, hput⟩
    rcases isSome_put.1 hput with ⟨rfl, hlow, hhigh⟩ | hold
    · refine .inl ⟨rfl, ?_⟩
      have hv : pageOf pageSize (v * pageSize + (a - v * pageSize)) = v := pageOf_mul_add (by omega)
      rw [Nat.add_sub_cancel' (by omega)] at hv
      exact ha.symm.trans hv
    · exact .inr ⟨a, ha, hold⟩
  · rintro (⟨rfl, rfl⟩ | ⟨a, ha, hold⟩)
    · have hoffset : offset < pageSize := by omega
      exact ⟨_, pageOf_mul_add hoffset, isSome_put.2 (.inl ⟨rfl, by omega, by omega⟩)⟩
    · exact ⟨a, ha, isSome_put.2 (.inr hold)⟩

theorem after_append : s.after (log ++ log') = (s.after log).after log' := List.foldl_append

/-- Reading stores nothing. -/
theorem after_of_reads (hlog : ∀ a ∈ log, a.write = false) : s.after log = s := by
  induction log with
  | nil => rfl
  | cons a log ih =>
    rw [after, List.foldl_cons, hlog a List.mem_cons_self]
    exact ih fun a ha => hlog a (List.mem_cons_of_mem _ ha)

/-- Pieces that follow one another are stored as one. -/
theorem after_accesses {pieces : List Bytes} :
    s.after (accesses pid true start pieces) = s.put pid start pieces.flatten := by
  induction pieces generalizing s start with
  | nil => exact put_nil.symm
  | cons piece pieces ih =>
    rw [List.flatten_cons, ← put_append, ← ih]
    rfl

end Stored

namespace Kernel

variable {σ : Type} {c : Conduct σ} {pins : Frame → Nat} {k k' : Kernel σ} {pid : Pid}
  {stored : Stored} {log : List Access}

/-! ## Courses -/

/-- Steps, reads and writes preserve `I`, which is about what has been stored and the kernel. -/
structure Carried (c : Conduct σ) (pins : Frame → Nat) (I : Stored → Kernel σ → Prop) : Prop where
  step : ∀ {s k k'}, Step c pins k k' → I s k → I s k'
  read : ∀ {s k k' pid v f}, Accessed pins pid v f false k k' → I s k → I s k'
  wrote : ∀ {s k k' pid v f offset} {bytes : Bytes}, Accessed pins pid v f true k k' →
    0 < bytes.length → offset + bytes.length ≤ k.memory.pageSize → I s k →
    I (s.put pid (v * k.memory.pageSize + offset) bytes)
      { k' with memory := k.memory.patch (f * k.memory.pageSize + offset) bytes }

theorem Course.carries {I : Stored → Kernel σ → Prop} (h : Course c pins k log k')
    (hI : Carried c pins I) (hwords : Bytes.wordSize ∣ k.memory.pageSize) (hk : I stored k) :
    I (stored.after log) k' := by
  induction h with
  | start => exact hk
  | step _ hs ih => exact hI.step hs ih
  | read _ hacc _ ih =>
    rw [Stored.after_append]
    exact hI.read hacc ih
  | wrote _ hacc hsome hfits ih =>
    rw [Stored.after_append]
    exact hI.wrote hacc hsome hfits ih
  | spilled hcourse hsmall =>
    rw [hcourse.same.pageSize] at hsmall
    exact absurd hwords hsmall

/-! ## Requests -/

section Requests

variable [BackingStore σ]

/-- The bytes that a request of process `pid` has written once it has been answered, and where:
    those of a store that returns, and those that a copy gets copied. -/
def written (k : Kernel σ) (pid : Pid) :
    ProcessRequest → (reply : Except PagingError Reply) → Option (Nat × Bytes)
  | .storeByte vaddr b, .ok .done => some (vaddr.toNat, [b])
  | .storeWord vaddr w, .ok .done => some (vaddr.toNat, Bytes.ofWord w)
  | .writeBytes vaddr data, .ok (.copied n) => some (vaddr.toNat, data.take n)
  | .writeBytes vaddr data, .error _ =>
    some (vaddr.toNat, data.take (k.progress pid vaddr.toNat data))
  | _, _ => none

/-- What is stored once a request has been answered. -/
def storedBy (k : Kernel σ) (stored : Stored) :
    Request → (reply : Except PagingError Reply) → Stored
  | .spawn _, _ => stored
  | .process pid request, reply =>
    match k.written pid request reply with
    | some (vaddr, bytes) => stored.put pid vaddr bytes
    | none => stored

/-- The accesses of a request write what its answer says. -/
theorem Accounts.written {request : ProcessRequest} {reply : Except PagingError Reply}
    (h : k.Accounts pid request reply log) :
    match k.written pid request reply with
    | some (vaddr, bytes) => ∃ pieces, log = accesses pid true vaddr pieces ∧ pieces.flatten = bytes
    | none => ∀ a ∈ log, a.write = false := by
  unfold Accounts at h
  split at h
  · subst h
    simp [Kernel.written]
  · obtain ⟨bytes, -, -, rfl⟩ := h
    simp [Kernel.written]
  · next b => exact ⟨[[b]], h, rfl⟩
  · next w => exact ⟨[Bytes.ofWord w], h, rfl⟩
  · obtain ⟨pieces, rfl, -⟩ := h
    exact fun a ha => (mem_accesses ha).2
  · exact h
  · exact h.2
  · unfold Kernel.written
    split <;> simp_all

theorem AccountsFor.after {request : Request} {reply : Except PagingError Reply}
    (h : k.AccountsFor request reply log) : stored.after log = k.storedBy stored request reply := by
  cases request with
  | spawn sections =>
    cases h
    rfl
  | process pid request =>
    have hwritten := Accounts.written h
    unfold storedBy
    dsimp only
    split
    · next heq =>
      rw [heq] at hwritten
      obtain ⟨pieces, rfl, rfl⟩ := hwritten
      exact Stored.after_accesses
    · next heq =>
      rw [heq] at hwritten
      exact Stored.after_of_reads hwritten

/-! ## Histories -/

/-- The kernels that a fresh one becomes as it answers requests, with what has been stored. -/
inductive History : Stored → Kernel σ → Prop where
  | fresh {pageSize config store sections picks k}
    (h : boot pageSize config store sections picks = .ok k) : History (fun _ _ => none) k
  | step {stored k request reply k'} (h : History stored k)
    (hrun : (perform request).run.run k = .ok (reply, k')) :
    History (k.storedBy stored request reply) k'

theorem History.reachable (h : History stored k) : k.Reachable := by
  induction h with
  | fresh h => exact .fresh h
  | step _ hrun ih => exact ih.perform hrun

/-- No pin is left between requests. -/
theorem History.sound (h : History stored k) :
    k.Sound (fun _ => 0) none ∧ 0 < k.tlb.slots.length := by
  induction h with
  | fresh h => exact (Checked.ends_of_eq_ok h).1 ends_boot
  | step _ hrun ih =>
    have hdone := (ends_perform .any ih.1 ih.2 (fun _ => .inr trivial) (fun _ _ => .any) fun _ _ =>
      Checked.ends_true fun _ _ => trivial).of_run hrun
    exact ⟨hdone.sound, hdone.same.tlbSize ▸ ih.2⟩

/-- A request takes a course from one history to the next. -/
theorem History.course {request : Request} {reply : Except PagingError Reply}
    (h : History stored k) (hc : c.Holds fun _ => True)
    (hrun : (perform request).run.run k = .ok (reply, k')) : ∃ log,
      Course c (fun _ => 0) k log k' ∧
        (Bytes.wordSize ∣ k.memory.pageSize → k.AccountsFor request reply log) :=
  (ends_perform_course (.of_holds hc) h.sound.1 h.sound.2 (fun _ => .inr trivial) (fun _ _ => .any)
    fun _ _ => Checked.ends_true fun _ _ => trivial).of_run hrun

/-- What holds at first, and is preserved, holds of every history. -/
theorem History.carries {I : Stored → Kernel σ → Prop} (h : History stored k)
    (hc : c.Holds fun _ => True) (hI : Carried c (fun _ => 0) I)
    (hwords : Bytes.wordSize ∣ k.memory.pageSize)
    (hfresh : ∀ {k}, k.residency.processes = [] → I (fun _ _ => none) k) : I stored k := by
  induction h with
  | fresh h => exact hfresh ((Checked.ends_of_eq_ok h).1 ends_boot_fresh).empty
  | step h hrun ih =>
    obtain ⟨log, hcourse, haccounts⟩ := h.course hc hrun
    rw [hcourse.same.pageSize] at hwords
    rw [← (haccounts hwords).after]
    exact hcourse.carries hI hwords (ih hwords)

theorem History.words (h : History stored k) (hsize : Bytes.wordSize ≤ k.memory.pageSize) :
    Bytes.wordSize ∣ k.memory.pageSize :=
  h.reachable.words hsize

end Requests

end Kernel

end DemandPaging

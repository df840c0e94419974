/-
  Copies and requests take a course.

  A copy moves its bytes chunk by chunk, each of them where the last one ended, up to the chunk
  that fails (`accesses`).  `copyBytes` is `writeBytes` with the number of bytes that have been
  copied even if it fails.  `Accounts` says which bytes a request that ended with a given answer
  has read and written.
-/
import DemandPaging.Kernel.Run
import DemandPaging.Proofs.Instructions

namespace DemandPaging

/-- Accesses to pieces of memory that follow one another from `start` on. -/
def accesses (pid : Pid) (write : Bool) : (start : Nat) → List Bytes → List Access
  | _, [] => []
  | start, piece :: rest =>
    ⟨pid, start, piece, write⟩ :: accesses pid write (start + piece.length) rest

theorem mem_accesses {pid : Pid} {write : Bool} {start : Nat} {pieces : List Bytes} {a : Access}
    (ha : a ∈ accesses pid write start pieces) : a.pid = pid ∧ a.write = write := by
  induction pieces generalizing start with
  | nil => cases ha
  | cons piece rest ih =>
    rcases List.mem_cons.1 ha with rfl | hrest
    · exact ⟨rfl, rfl⟩
    · exact ih hrest

/-- Where all pieces are, their bytes are as a whole. -/
theorem accesses_within {pid : Pid} {write : Bool} {start n : Nat} {pieces : List Bytes}
    (h : ∀ a ∈ accesses pid write start pieces, a.vaddr + a.bytes.length ≤ n) :
    pieces.flatten = [] ∨ start + pieces.flatten.length ≤ n := by
  induction pieces generalizing start with
  | nil => exact .inl rfl
  | cons piece rest ih =>
    have hfirst : start + piece.length ≤ n := h _ List.mem_cons_self
    right
    rw [List.flatten_cons, List.length_append]
    rcases ih fun a ha => h a (List.mem_cons_of_mem _ ha) with hnil | hrest
    · rw [hnil]
      exact hfirst
    · omega

namespace Kernel

variable {σ : Type} {c : Conduct σ} {V : Violation → Prop} {pins : Frame → Nat}
  {k k' k₁ k₂ : Kernel σ} {pid : Pid} {f : Frame} {vaddr len start done pageSize numPages : Nat}
  {write : Bool} {chunk : Chunk} {list : List Chunk} {pieces : List Bytes} {data : Bytes}

/-! ## Chunks -/

/-- The chunks follow one another from address `start` on, each with some bytes of one page, up to
    its end if there are more, and have at most `len` bytes. -/
def Consecutive (pageSize : Nat) : (start len : Nat) → List Chunk → Prop
  | _, _, [] => True
  | start, len, chunk :: rest =>
    chunk.vpn * pageSize + chunk.offset = start ∧ chunk.offset + chunk.amount ≤ pageSize ∧
      0 < chunk.amount ∧ chunk.amount ≤ len ∧
      (rest ≠ [] → chunk.offset + chunk.amount = pageSize) ∧
      Consecutive pageSize (start + chunk.amount) (len - chunk.amount) rest

theorem chunksFrom_of_le {fuel : Nat} (hdone : len ≤ done) :
    chunksFrom pageSize numPages vaddr len fuel done = [] := by
  cases fuel with
  | zero => rfl
  | succ fuel =>
    unfold chunksFrom
    exact if_pos (.inl hdone)

theorem consecutive_chunks (hpos : 0 < pageSize) :
    Consecutive pageSize vaddr len (chunks pageSize numPages vaddr len) := by
  have hfrom : ∀ fuel done, Consecutive pageSize (vaddr + done) (len - done)
      (chunksFrom pageSize numPages vaddr len fuel done) := by
    intro fuel
    induction fuel with
    | zero =>
      intro done
      trivial
    | succ fuel ih =>
      intro done
      have hlt : offsetIn pageSize (vaddr + done) < pageSize := Nat.mod_lt _ hpos
      unfold chunksFrom
      dsimp only
      split
      · trivial
      · next hmore =>
        have hrest := ih (done + min (pageSize - offsetIn pageSize (vaddr + done)) (len - done))
        rw [← Nat.add_assoc, Nat.sub_add_eq] at hrest
        have hleft : done < len := Nat.not_le.1 fun hall => hmore (.inl hall)
        refine ⟨pageOf_mul_add_offsetIn, ?_, ?_, Nat.min_le_right _ _, fun hsome => ?_, hrest⟩
        · dsimp only
          omega
        · dsimp only
          omega
        · -- a chunk that does not end with its page is the last one
          refine Classical.byContradiction fun hshort => hsome ?_
          dsimp only at hshort
          exact chunksFrom_of_le (by omega)
  exact hfrom len 0

/-- A chunk that has been read, or cannot be. -/
theorem Copied.read_course {r : Except PagingError Bytes}
    (hcopied : Copied c pins pid chunk.vpn false (ReadFrom chunk) k r k') (h : k.Sound pins none)
    (hfits : chunk.offset + chunk.amount ≤ k.memory.pageSize) :
    (∀ bytes, r = .ok bytes → bytes.length = chunk.amount ∧ Course c pins k
      [⟨pid, chunk.vpn * k.memory.pageSize + chunk.offset, bytes, false⟩] k') ∧
    ∀ error, r = .error error → Course c pins k [] k' := by
  cases hcopied with
  | failed hres => exact ⟨(by simp), fun _ _ => hres.course h⟩
  | refused hres _ _ => exact ⟨(by simp), fun _ _ => hres.course h⟩
  | @moved e f k₁ _ _ hres he hs hwrite hmoved =>
    obtain ⟨rfl, rfl⟩ := hmoved
    obtain ⟨⟨h₁, hkeeps⟩, -⟩ := hres.ready h
    have hps := hkeeps.pageSize
    have hacc := Accessed.marked h₁ he hs hwrite
    have hread := (hres.course h).read hacc (hps.symm ▸ hfits)
    rw [slice_frameBytes (hps.symm ▸ hfits), hps] at hread
    refine ⟨?_, (by simp)⟩
    rintro _ ⟨⟩
    rw [hps]
    refine ⟨Bytes.length_slice _ _ _ ?_, hread⟩
    rw [h₁.memory.length, ← hps]
    exact PhysicalMemory.place_le hacc.frame_lt (hps.symm ▸ hfits)

/-- A chunk that has been written, or cannot be. -/
theorem Copied.write_course {r : Except PagingError Unit}
    (hcopied : Copied c pins pid chunk.vpn true (WrittenTo chunk data) k r k')
    (h : k.Sound pins none) (hsome : 0 < data.length)
    (hfits : chunk.offset + data.length ≤ k.memory.pageSize) :
    (r = .ok () → Course c pins k
      [⟨pid, chunk.vpn * k.memory.pageSize + chunk.offset, data, true⟩] k') ∧
    ∀ error, r = .error error → Course c pins k [] k' := by
  cases hcopied with
  | failed hres => exact ⟨(by simp), fun _ _ => hres.course h⟩
  | refused hres _ _ => exact ⟨(by simp), fun _ _ => hres.course h⟩
  | @moved e f k₁ _ _ hres he hs hwrite hmoved =>
    obtain ⟨rfl, rfl⟩ := hmoved
    obtain ⟨⟨h₁, hkeeps⟩, -⟩ := hres.ready h
    have hps := hkeeps.pageSize
    have hwrote := (hres.course h).wrote (.marked h₁ he hs hwrite) hsome (hps.symm ▸ hfits)
    refine ⟨fun _ => ?_, (by simp)⟩
    rw [← hps]
    exact hwrote

/-! ## Progress of a copy -/

section Progress

variable [BackingStore σ]

/-- Copies chunks out as `writeChunks` does.  Answers the number of bytes copied even if a chunk
    fails. -/
def copyOut (pid : Pid) : List Chunk → (data : Bytes) →
    StateT (Kernel σ) Checked (Except PagingError Unit × Nat)
  | [], _ => return (.ok (), 0)
  | c :: rest, data => do
    match ← (copyChunk pid true c fun address => writing (·.write address (data.take c.amount))).run with
    | .ok () =>
      let (result, n) ← copyOut pid rest (data.drop c.amount)
      return (result, c.amount + n)
    | .error e => return (.error e, 0)

/-- Copies `data` out as `writeBytes` does.  Answers the number of bytes copied even if the copy
    fails. -/
def copyBytes (pid : Pid) (vaddr : Nat) (data : Bytes) :
    StateT (Kernel σ) Checked (Except PagingError Unit × Nat) := do
  match ← (liveProcess pid).run with
  | .error e => return (.error e, 0)
  | .ok process =>
    let cs ← cut (← get).pageSize process.numPages vaddr data.length
    copyOut pid cs data

/-- The number of bytes that a copy of `data` to the address space of a process gets copied. -/
def progress (k : Kernel σ) (pid : Pid) (vaddr : Nat) (data : Bytes) : Nat :=
  match (copyBytes pid vaddr data).run k with
  | .ok ((_, n), _) => n
  | .error _ => 0

theorem writeChunks_eq {moved : Nat} : (writeChunks (σ := σ) pid list data moved).run =
    (fun r => r.1.map fun _ => moved + r.2) <$> copyOut pid list data := by
  induction list generalizing data moved with
  | nil => rfl
  | cons c rest ih =>
    unfold writeChunks copyOut
    rw [ExceptT.run_bind, map_bind]
    refine congrArg _ (funext fun r => ?_)
    cases r with
    | error e => rfl
    | ok _ =>
      dsimp only
      rw [ih, map_bind, ← bind_pure_comp]
      refine congrArg _ (funext fun result => ?_)
      rw [map_pure, Nat.add_assoc]

/-- Counting the bytes changes nothing about the copy. -/
theorem writeBytes_eq : (writeBytes (σ := σ) pid vaddr data).run =
    (fun r => r.1.map fun _ => r.2) <$> copyBytes pid vaddr data := by
  unfold writeBytes copyBytes
  rw [ExceptT.run_bind, map_bind]
  refine congrArg _ (funext fun r => ?_)
  cases r with
  | error e => rfl
  | ok p =>
    have heq : ∀ cs, (writeChunks (σ := σ) pid cs data 0).run = _ := fun cs => writeChunks_eq
    simp only [Nat.zero_add] at heq
    funext k
    change ((liftM (cut k.pageSize p.numPages vaddr data.length) >>= fun cs =>
        writeChunks pid cs data 0 : KernelM σ Nat)).run.run k =
      ((fun r => r.1.map fun _ => r.2) <$> (liftM (cut k.pageSize p.numPages vaddr data.length) >>=
        fun cs => copyOut pid cs data : StateT (Kernel σ) Checked _)).run k
    cases cut k.pageSize p.numPages vaddr data.length with
    | error v => rfl
    | ok cs => exact congrFun (heq cs) k

end Progress

/-! ## Copies -/

section Copies

variable [BackingStore σ]

/-- The induction is on the chunks: what has been read so far comes first. -/
theorem ends_readChunks (hc : Tolerated c V k) (h : k.Sound pins none)
    (hpin : ∀ f, pins f + 1 < limit32 ∨ V .overflow)
    (hlist : Consecutive k.memory.pageSize start len list)
    {Q : Except PagingError Unit × Bytes → Kernel σ → Prop}
    (hQ : ∀ r k' more, Course c pins k (accesses pid false start more) k' →
      more.flatten.length ≤ len → Q (r, pieces.reverse.flatten ++ more.flatten) k') :
    Ends V (readChunks pid list pieces) k Q := by
  induction list generalizing k start len pieces Q with
  | nil =>
    have hdone := hQ (.ok ()) k [] .start (Nat.zero_le _)
    rwa [List.flatten_nil, List.append_nil] at hdone
  | cons chunk rest ih =>
    obtain ⟨hplace, hfits, -, hamount, -, hrest⟩ := hlist
    unfold readChunks
    rw [step_ends_bind]
    refine ends_copyChunk hc h (fun _ _ => hpin _) (moves_read hfits) fun r k₁ hcopied => ?_
    have hstays := hcopied.stays_of_read h
    obtain ⟨hread, hfailed⟩ := hcopied.read_course h hfits
    cases r with
    | error error =>
      have hdone := hQ (.error error) k₁ [] (hfailed error rfl) (Nat.zero_le _)
      rwa [List.flatten_nil, List.append_nil] at hdone
    | ok bytes =>
      obtain ⟨hlen, hcourse⟩ := hread bytes rfl
      have hc₁ : Tolerated c V k₁ := hc.of_keeps hstays.keeps
      have hrest₁ : Consecutive k₁.memory.pageSize (start + chunk.amount) (len - chunk.amount) rest := by
        rw [hstays.keeps.pageSize]
        exact hrest
      refine ih hc₁ hstays.sound hrest₁ fun r k' more hmore hmost => ?_
      rw [hplace] at hcourse
      have hcount : (bytes :: more).flatten.length ≤ len := by
        rw [List.flatten_cons, List.length_append]
        omega
      rw [← hlen] at hmore
      have hall := hQ r k' (bytes :: more) (hcourse.trans hmore) hcount
      simpa using hall

/-- The induction is on the chunks: their bytes are at the front of the data.  A chunk that fails
    is the first one, or follows one that ends with its page. -/
theorem ends_copyOut (hc : Tolerated c V k) (h : k.Sound pins none)
    (hpin : ∀ f, pins f + 1 < limit32 ∨ V .overflow)
    (hlist : Consecutive k.memory.pageSize start data.length list)
    {Q : Except PagingError Unit × Nat → Kernel σ → Prop}
    (hQ : ∀ r n k' pieces, Course c pins k (accesses pid true start pieces) k' →
      pieces.flatten = data.take n →
      (∀ error, r = .error error → list ≠ [] ∧ (n = 0 ∨ k.memory.pageSize ∣ start + n)) →
      Q (r, n) k') :
    Ends V (copyOut pid list data) k Q := by
  induction list generalizing k start data Q with
  | nil => exact hQ (.ok ()) 0 k [] .start rfl (by simp)
  | cons chunk rest ih =>
    obtain ⟨hplace, hfits, hsome, hamount, hwhole, hrest⟩ := hlist
    have htake : (data.take chunk.amount).length = chunk.amount := List.length_take_of_le hamount
    unfold copyOut
    rw [step_ends_bind]
    refine ends_copyChunk hc h (fun _ _ => hpin _) (moves_write hfits (Nat.le_of_eq htake))
      fun r k₁ hcopied => ?_
    have hstays := hcopied.stays_of_write h (htake.symm ▸ hfits)
    obtain ⟨hwrote, hfailed⟩ := hcopied.write_course h (htake.symm ▸ hsome) (htake.symm ▸ hfits)
    cases r with
    | error error =>
      exact hQ (.error error) 0 k₁ [] (hfailed error rfl) rfl fun _ _ => ⟨(by simp), .inl rfl⟩
    | ok _ =>
      have hcourse := hwrote rfl
      have hc₁ : Tolerated c V k₁ := hc.of_keeps hstays.keeps
      have hrest₁ : Consecutive k₁.memory.pageSize (start + chunk.amount)
          (data.drop chunk.amount).length rest := by
        rw [hstays.keeps.pageSize, List.length_drop]
        exact hrest
      dsimp only
      rw [step_ends_bind]
      refine ih hc₁ hstays.sound hrest₁ fun r n k' pieces hmore hpieces hstop => ?_
      have hfirst := hcourse
      rw [hplace] at hfirst
      rw [← htake] at hmore
      refine hQ r _ k' (data.take chunk.amount :: pieces) (hfirst.trans hmore) ?_ fun error hr => ?_
      · rw [List.flatten_cons, hpieces, List.take_add]
      · obtain ⟨hlater, hat⟩ := hstop error hr
        rw [hstays.keeps.pageSize, Nat.add_assoc] at hat
        refine ⟨(by simp), .inr (hat.elim (fun hzero => ?_) id)⟩
        rw [hzero, Nat.add_zero, ← hplace, Nat.add_assoc, hwhole hlater]
        exact Nat.dvd_add (Nat.dvd_mul_left _ _) (Nat.dvd_refl _)

theorem ends_readBytes {buffer : Bytes} (hc : Tolerated c V k) (h : k.Sound pins none)
    (hpin : ∀ f, pins f + 1 < limit32 ∨ V .overflow)
    {Q : Except PagingError Nat × Bytes → Kernel σ → Prop}
    (hQ : ∀ r k' pieces, Course c pins k (accesses pid false vaddr pieces) k' →
      pieces.flatten.length ≤ buffer.length → (∀ n, r = .ok n → n = pieces.flatten.length) →
      Q (r, Bytes.overwrite buffer 0 pieces.flatten) k') :
    Ends V (readBytes pid vaddr buffer) k Q := by
  unfold readBytes
  rw [step_ends_bind]
  refine ends_liveProcess (fun _ => ?_) fun p _ _ => ?_
  · have hnone := hQ (.error (.processExited pid)) k [] .start (Nat.zero_le _) (by simp)
    rwa [List.flatten_nil, Bytes.overwrite_nil] at hnone
  · dsimp only
    rw [step_ends_bind, step_ends_get, step_ends_bind, step_ends_lift]
    refine h.ends_cut hc.divides ?_
    rw [step_ends_bind]
    refine ends_readChunks hc h hpin (consecutive_chunks h.memory.pageSize_pos) ?_
    intro r k' pieces hcourse hmost
    refine hQ _ k' pieces hcourse hmost ?_
    cases r with
    | error error => simp [Except.map]
    | ok _ =>
      rintro n ⟨⟩
      rfl

theorem ends_copyBytes (hc : Tolerated c V k) (h : k.Sound pins none)
    (hpin : ∀ f, pins f + 1 < limit32 ∨ V .overflow)
    {Q : Except PagingError Unit × Nat → Kernel σ → Prop}
    (hQ : ∀ r n k' pieces, Course c pins k (accesses pid true vaddr pieces) k' →
      pieces.flatten = data.take n →
      (∀ error, r = .error error → n = 0 ∨ k.memory.pageSize ∣ vaddr + n) → Q (r, n) k') :
    Ends V (copyBytes pid vaddr data) k Q := by
  unfold copyBytes
  rw [step_ends_bind]
  refine ends_liveProcess (fun _ => ?_) fun p _ _ => ?_
  · exact hQ (.error (.processExited pid)) 0 k [] .start rfl fun _ _ => .inl rfl
  · dsimp only
    rw [step_ends_bind, step_ends_get, step_ends_bind, step_ends_lift]
    refine h.ends_cut hc.divides ?_
    refine ends_copyOut hc h hpin (consecutive_chunks h.memory.pageSize_pos) ?_
    exact fun r n k' pieces hcourse hpieces hstop =>
      hQ r n k' pieces hcourse hpieces fun error hr => (hstop error hr).2

/-- As many bytes have been written as the copy got copied, whether it fails or not.  It fails at
    its first page, or where a page ends. -/
theorem ends_writeBytes (hc : Tolerated c V k) (h : k.Sound pins none)
    (hpin : ∀ f, pins f + 1 < limit32 ∨ V .overflow)
    {Q : Except PagingError Nat → Kernel σ → Prop}
    (hQ : ∀ r k' pieces, Course c pins k (accesses pid true vaddr pieces) k' →
      pieces.flatten = data.take (k.progress pid vaddr data) →
      (∀ n, r = .ok n → n = k.progress pid vaddr data) →
      (∀ error, r = .error error → k.progress pid vaddr data = 0 ∨
        k.memory.pageSize ∣ vaddr + k.progress pid vaddr data) → Q r k') :
    Ends V (writeBytes pid vaddr data).run k Q := by
  have hrun := (ends_copyBytes (Q := fun r k' => (∃ pieces,
      Course c pins k (accesses pid true vaddr pieces) k' ∧ pieces.flatten = data.take r.2) ∧
      ∀ error, r.1 = .error error → r.2 = 0 ∨ k.memory.pageSize ∣ vaddr + r.2) hc h hpin
    fun _ _ _ pieces hcourse hpieces hstop => ⟨⟨pieces, hcourse, hpieces⟩, hstop⟩).with_run
  unfold Ends
  rw [writeBytes_eq, StateT.run_map, Checked.ends_map]
  refine Checked.Ends.imp hrun ?_
  rintro ⟨⟨r, n⟩, k'⟩ ⟨⟨⟨pieces, hcourse, hpieces⟩, hstop⟩, hdone⟩
  have hn : k.progress pid vaddr data = n := by rw [progress, hdone]
  rw [← hn] at hpieces hstop
  refine hQ _ k' pieces hcourse hpieces ?_ ?_
  · cases r with
    | error error => simp [Except.map]
    | ok _ =>
      rintro m ⟨⟩
      exact hn.symm
  · cases r with
    | error error => exact fun _ _ => hstop error rfl
    | ok _ => simp [Except.map]

end Copies

/-! ## Requests -/

section Requests

variable [BackingStore σ]

/-- A request of process `pid` in the state `k` that was answered with `reply` has had the
    accesses `log` to memory. -/
def Accounts (k : Kernel σ) (pid : Pid) :
    ProcessRequest → (reply : Except PagingError Reply) → List Access → Prop
  | .loadByte vaddr, .ok (.byte b), log => log = [⟨pid, vaddr.toNat, [b], false⟩]
  | .loadWord vaddr, .ok (.word w), log => ∃ bytes, bytes.length = Bytes.wordSize ∧
      w = Bytes.word bytes ∧ log = [⟨pid, vaddr.toNat, bytes, false⟩]
  | .storeByte vaddr b, .ok .done, log => log = [⟨pid, vaddr.toNat, [b], true⟩]
  | .storeWord vaddr w, .ok .done, log => log = [⟨pid, vaddr.toNat, Bytes.ofWord w, true⟩]
  | .readBytes vaddr buffer, .ok (.filled n filled), log => ∃ pieces,
      log = accesses pid false vaddr.toNat pieces ∧ n = pieces.flatten.length ∧
        n ≤ buffer.length ∧ filled = Bytes.overwrite buffer 0 pieces.flatten
  | .writeBytes vaddr data, .ok (.copied n), log => ∃ pieces,
      log = accesses pid true vaddr.toNat pieces ∧ pieces.flatten = data.take n
  | .writeBytes vaddr data, .error _, log =>
      (k.progress pid vaddr.toNat data = 0 ∨
        k.memory.pageSize ∣ vaddr.toNat + k.progress pid vaddr.toNat data) ∧
      ∃ pieces, log = accesses pid true vaddr.toNat pieces ∧
        pieces.flatten = data.take (k.progress pid vaddr.toNat data)
  | _, _, log => ∀ a ∈ log, a.write = false

/-- Where words fit into pages, the course of a request has the accesses that its answer
    accounts for. -/
theorem ends_performFor_course {request : ProcessRequest} (hc : Tolerated c V k)
    (h : k.Sound pins none) (hsize : 0 < k.tlb.slots.length)
    (hpin : ∀ f, pins f + 1 < limit32 ∨ V .overflow)
    (hexit : request = .exit ∨ request = .drop → Exits V pid k) :
    Ends V (performFor pid request).run k fun r k' => ∃ log, Course c pins k log k' ∧
      (Bytes.wordSize ∣ k.memory.pageSize → k.Accounts pid request r log) := by
  have hnone : ∀ a ∈ ([] : List Access), a.write = false := (by simp)
  cases request with
  | loadByte vaddr =>
    refine ends_map.2 (ends_loadByte hc h hsize (fun b k' hcourse => ?_) fun e k' hcourse => ?_)
    · exact ⟨_, hcourse, fun _ => rfl⟩
    · exact ⟨_, hcourse, fun _ => hnone⟩
  | storeByte vaddr b =>
    refine ends_map.2 (ends_storeByte hc h hsize (fun k' hcourse => ?_) fun e k' hcourse => ?_)
    · exact ⟨_, hcourse, fun _ => rfl⟩
    · exact ⟨_, hcourse, fun _ => hnone⟩
  | loadWord vaddr =>
    refine ends_map.2 (ends_loadWord hc h hsize (fun w k' log hcourse hword => ?_)
      fun e k' log hcourse hlog => ?_)
    · exact ⟨_, hcourse, hword⟩
    · refine ⟨_, hcourse, fun hdvd => ?_⟩
      rw [hlog hdvd]
      exact hnone
  | storeWord vaddr w =>
    refine ends_map.2 (ends_storeWord hc h hsize (fun k' log hcourse hlog => ?_) fun e k' hcourse => ?_)
    · exact ⟨_, hcourse, hlog⟩
    · exact ⟨_, hcourse, fun _ => hnone⟩
  | readBytes vaddr buffer =>
    refine ends_bind.2 (ends_exceptT_lift.2 (ends_readBytes hc h hpin ?_))
    intro r k' pieces hcourse hmost hcount
    cases r with
    | error e => exact ⟨_, hcourse, fun _ a ha => (mem_accesses ha).2⟩
    | ok n =>
      obtain rfl := hcount n rfl
      exact ⟨_, hcourse, fun _ => ⟨pieces, rfl, rfl, hmost, rfl⟩⟩
  | writeBytes vaddr data =>
    refine ends_map.2 (ends_writeBytes hc h hpin fun r k' pieces hcourse hpieces hcount hstop => ?_)
    cases r with
    | error e => exact ⟨_, hcourse, fun _ => ⟨hstop e rfl, pieces, rfl, hpieces⟩⟩
    | ok n => exact ⟨_, hcourse, fun _ => ⟨pieces, rfl, hcount n rfl ▸ hpieces⟩⟩
  | handleMiss vaddr =>
    refine ends_map.2 (ends_handleMiss hc h hsize fun r k' hserved => ?_)
    exact ⟨_, hserved.course h, fun _ => hnone⟩
  | saveState =>
    exact ends_map.2 ((ends_flush h).2 ⟨_, (h.take_step _).course, fun _ => hnone⟩)
  | restoreState => exact ⟨_, .start, fun _ => hnone⟩
  | exit =>
    refine ends_map.2 (ends_exit h (hexit (.inl rfl)) fun r k' hdone => ?_)
    exact ⟨_, (Step.exited h hdone).course, fun _ => hnone⟩
  | drop =>
    refine ends_map.2 (ends_drop h (hexit (.inr rfl)) (fun _ => ⟨_, .start, fun _ => hnone⟩)
      fun k₁ hdone => ?_)
    have hforgotten : Step c pins k₁ (k₁.withoutProcess pid) :=
      .forgotten (hdone.sound h) (hdone.gone h)
    exact ⟨_, (Step.exited h hdone).course.step hforgotten, fun _ => hnone⟩

/-- The accesses of a request: making a process has none. -/
def AccountsFor (k : Kernel σ) :
    Request → (reply : Except PagingError Reply) → List Access → Prop
  | .spawn _, _, log => log = []
  | .process pid request, reply, log => k.Accounts pid request reply log

theorem ends_perform_course {request : Request} (hc : Tolerated c V k)
    (h : k.Sound pins none) (hsize : 0 < k.tlb.slots.length)
    (hpin : ∀ f, pins f + 1 < limit32 ∨ V .overflow)
    (hexit : ∀ pid, request = .process pid .exit ∨ request = .process pid .drop → Exits V pid k)
    (hspawn : ∀ sections, request = .spawn sections →
      Ends V (spawn (σ := σ) sections).run k fun _ _ => True) :
    Ends V (perform request).run k fun r k' => ∃ log, Course c pins k log k' ∧
      (Bytes.wordSize ∣ k.memory.pageSize → k.AccountsFor request r log) := by
  have hnone : ∀ a ∈ ([] : List Access), a.write = false := (by simp)
  cases request with
  | spawn sections =>
    refine ends_bind.2 (((hspawn sections rfl).of_returns ends_spawn).imp ?_)
    intro r k' hmade
    have hcourse : Course c pins k [] k' := (Step.spawned h hmade).course
    cases r with
    | error e => exact ⟨_, hcourse, fun _ => rfl⟩
    | ok pid =>
      simp only [process, ends_bind, ends_get]
      cases k'.residency.process? pid <;> exact ⟨_, hcourse, fun _ => rfl⟩
  | process pid request =>
    simp only [perform, ends_bind, ends_get]
    cases hp : k.residency.process? pid with
    | some p =>
      refine ends_performFor_course hc h hsize hpin fun hends => hexit pid ?_
      simpa using hends
    | none =>
      refine ⟨[], .start, fun _ => ?_⟩
      cases request with
      | drop => exact hnone
      | _ =>
        rw [if_neg (by simp)]
        exact hnone

end Requests

end Kernel

end DemandPaging

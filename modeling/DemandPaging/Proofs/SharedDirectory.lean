/-
  Kernels that share a directory.

  Each kernel swaps to a file of its own there, and finds the directory as the others have left
  it.  If no other kernel was ever set up with a name for the same file, it answers all requests
  as it would with the directory to itself (`Good.alone`, from one lemma for each kind of call).

  * `swap_files_independent`: calls on swap files, and kernels, leave others alone unless their
    names differ in hyphens and underscores only;
  * `hyphen_shares_file`: two names that do.
-/
import DemandPaging.Proofs.Directory
import DemandPaging.Proofs.LoneSwap

namespace DemandPaging

/-! ## A kernel that has the directory to itself -/

namespace Kernel

variable {files : HostFiles} {pageSize : Nat} {config : Config} {sections : List Section}
  {picks : List Nat} {requests : List Request} {request : Request}
  {reply : Except PagingError Reply} {replies : List (Except PagingError Reply)}
  {k k' k₀ : Kernel FileStore}

theorem bootWithSwapFile_eq
    (hpath : HostFiles.pathError? {} (SwapFile.makeName config.swapFile) = none)
    (hk : boot pageSize config ⟨⟨[(SwapFile.makeName config.swapFile, 0)], [.empty]⟩,
      ⟨SwapFile.makeName config.swapFile, 0, none⟩⟩ sections picks = .ok k) :
    (bootWithSwapFile pageSize config sections picks).run = .ok (.ok k) := by
  have hcreate : HostFiles.create {} (SwapFile.makeName config.swapFile) =
      .ok (0, ⟨[(SwapFile.makeName config.swapFile, 0)], [.empty]⟩) := by
    rw [HostFiles.create, hpath]
    rfl
  have hstore : (FileStore.create config.swapFile none).run = .ok (.ok
      ⟨⟨[(SwapFile.makeName config.swapFile, 0)], [.empty]⟩,
        ⟨SwapFile.makeName config.swapFile, 0, none⟩⟩) := by
    unfold FileStore.create
    rw [SwapFile.run_create, hcreate]
    rfl
  unfold bootWithSwapFile
  rw [hstore]
  change (liftM (boot pageSize config _ sections picks) : Attempt PagingError _).run = _
  rw [hk]
  rfl

/-- One more request after a run. -/
theorem run_snoc (hrun : (run requests).run k₀ = .ok (replies, k))
    (hlast : (perform request).run.run k = .ok (reply, k')) :
    (run (requests ++ [request])).run k₀ = .ok (replies ++ [reply], k') := by
  rw [run_append, hrun]
  change ((run [request]).run k >>= _) = _
  rw [run_cons, hlast]
  rfl

end Kernel

/-! ## Kernels in one directory -/

/-- How a kernel is set up. -/
structure Setup where
  pageSize : Nat
  config : Config
  sections : List Section
  picks : List Nat

/-- The name of the swap area. -/
def Setup.name (setup : Setup) : String := setup.config.swapFile

/-- A kernel, with what it was asked and what it has answered.  It is live until it is scrapped. -/
structure Machine where
  setup : Setup
  kernel : Kernel FileStore
  requests : List Request := []
  replies : List (Except PagingError Reply) := []
  live : Bool := true

/-- After a request. -/
def Machine.answered (m : Machine) (request : Request) (reply : Except PagingError Reply)
    (kernel : Kernel FileStore) : Machine :=
  { m with kernel, requests := m.requests ++ [request], replies := m.replies ++ [reply] }

/-- A directory, and the kernels that were set up in it, in order. -/
structure Site where
  files : HostFiles
  machines : List Machine := []

/-- Something done with a kernel. -/
inductive SiteCall where
  | boot (setup : Setup)
  | request (i : Nat) (request : Request)
  | scrap (i : Nat)

namespace Site

/-- A live kernel. -/
def machine? (site : Site) (i : Nat) : Option Machine := site.machines[i]?.filter (·.live)

/-- Uses a live kernel. -/
def through (site : Site) (i : Nat) (use : Machine → Checked Site) : Checked Site :=
  match site.machine? i with
  | some m => use m
  | none => Violation.index.stop

/-- Sets up a kernel, has one carry out a request, or scraps one, which removes its swap file. -/
def serve (site : Site) : SiteCall → Checked Site
  | .boot setup => do
    match ← (SwapFile.create setup.name none).run.run site.files with
    | (.error _, files) => return { site with files }
    | (.ok file, files) =>
      let kernel ← Kernel.boot setup.pageSize setup.config ⟨files, file⟩ setup.sections setup.picks
      return ⟨files, site.machines ++ [{ setup, kernel }]⟩
  | .request i request => site.through i fun m => do
    let (reply, kernel) ← (Kernel.perform request).run.run (m.kernel.within site.files)
    return ⟨kernel.swap.store.files, site.machines.set i (m.answered request reply kernel)⟩
  | .scrap i => site.through i fun m =>
    return ⟨m.kernel.swapFile.drop site.files, site.machines.set i { m with live := false }⟩

variable {site site' : Site} {call : SiteCall} {i : Nat} {m : Machine} {setup : Setup}

/-- The handles of the live kernels. -/
def directory (site : Site) : Directory where
  files := site.files
  handles := site.machines.map fun m =>
    if m.live then some ⟨m.setup.name, m.kernel.swapFile⟩ else none

theorem handle?_directory : site.directory.handle? i =
    (site.machine? i).map fun m => ⟨m.setup.name, m.kernel.swapFile⟩ := by
  unfold Directory.handle? machine? directory
  rw [List.getElem?_map]
  cases site.machines[i]? with
  | none => rfl
  | some m => cases hlive : m.live <;> simp [Option.filter, hlive]

/-- No other kernel was ever set up with a name for the same file. -/
def Unshared (site : Site) (i : Nat) (m : Machine) : Prop :=
  ∀ j m', site.machines[j]? = some m' → j ≠ i →
    SwapFile.makeName m'.setup.name ≠ SwapFile.makeName m.setup.name

/-- The kernel answered as it would have by itself, and is ready to go on so. -/
def Alone (files : HostFiles) (m : Machine) : Prop :=
  ∃ k₀ k lone, (Kernel.bootWithSwapFile m.setup.pageSize m.setup.config m.setup.sections
      m.setup.picks).run = .ok (.ok k₀) ∧
    (Kernel.run m.requests).run k₀ = .ok (m.replies, k) ∧
      m.kernel.Stands files lone ∧ k.Stands k.swap.store.files lone

/-- The kernel can carry out requests. -/
structure Ready (m : Machine) : Prop where
  sound : ∃ pins, m.kernel.Sound pins none
  tlb : 0 < m.kernel.tlb.slots.length
  capacity : m.kernel.swapFile.capacity = none

/-- What is true of a site at all times. -/
structure Good (site : Site) : Prop where
  tidy : site.directory.Tidy
  ready : ∀ {i m}, site.machine? i = some m → Ready m
  alone : ∀ {i m}, site.machine? i = some m → site.Unshared i m → Alone site.files m

/-! ### Looking kernels up -/

section Lookup

variable {files : HostFiles} {j : Nat} {m' new : Machine}

theorem machine?_eq_some : site.machine? i = some m ↔ site.machines[i]? = some m ∧ m.live = true := by
  unfold machine?
  rw [Option.filter_eq_some_iff]

theorem machine?_boot (hlive : new.live = true) :
    (Site.mk files (site.machines ++ [new])).machine? i =
      if i = site.machines.length then some new else site.machine? i := by
  unfold machine?
  rcases Nat.lt_trichotomy i site.machines.length with hlt | rfl | hgt
  · rw [List.getElem?_append_left hlt, if_neg (by omega)]
  · simp [Option.filter, hlive]
  · rw [List.getElem?_eq_none (by simp; omega), List.getElem?_eq_none (by omega), if_neg (by omega)]

theorem machine?_set (hm : site.machine? i = some m) :
    (Site.mk files (site.machines.set i new)).machine? j =
      if j = i then (if new.live then some new else none) else site.machine? j := by
  obtain ⟨hmem, -⟩ := machine?_eq_some.1 hm
  obtain ⟨hlt, -⟩ := List.getElem?_eq_some_iff.1 hmem
  unfold machine?
  by_cases heq : j = i
  · subst heq
    rw [List.getElem?_set_self hlt, if_pos rfl]
    cases hlive : new.live <;> simp [Option.filter, hlive]
  · rw [List.getElem?_set_ne (Ne.symm heq), if_neg heq]

theorem Unshared.of_boot (hj : j < site.machines.length)
    (h : (Site.mk files (site.machines ++ [new])).Unshared j m') :
    site.Unshared j m' ∧ SwapFile.makeName new.setup.name ≠ SwapFile.makeName m'.setup.name := by
  refine ⟨fun l m'' hl hne => h l m'' ?_ hne, h site.machines.length new (by simp) (by omega)⟩
  obtain ⟨hlt, -⟩ := List.getElem?_eq_some_iff.1 hl
  exact (List.getElem?_append_left hlt).trans hl

/-- A kernel that does something keeps its name. -/
theorem Unshared.of_set (hm : site.machine? i = some m) (hsetup : new.setup = m.setup)
    (h : (Site.mk files (site.machines.set i new)).Unshared j m') : site.Unshared j m' := by
  obtain ⟨hmem, -⟩ := machine?_eq_some.1 hm
  obtain ⟨hlt, -⟩ := List.getElem?_eq_some_iff.1 hmem
  intro l m'' hl hne
  by_cases heq : l = i
  · subst heq
    cases hl.symm.trans hmem
    exact hsetup ▸ h l new (List.getElem?_set_self hlt) hne
  · exact h l m'' ((List.getElem?_set_ne (Ne.symm heq)).trans hl) hne

end Lookup

/-! ### Calls -/

section Calls

variable {fileCall : FileCall} {name : String}

theorem serve_boot {node : Nat} {files : HostFiles} {k : Kernel FileStore}
    (hcreate : site.files.create (SwapFile.makeName setup.name) = .ok (node, files))
    (hk : Kernel.boot setup.pageSize setup.config
      ⟨files, ⟨SwapFile.makeName setup.name, node, none⟩⟩ setup.sections setup.picks = .ok k) :
    site.serve (.boot setup) = .ok ⟨files, site.machines ++ [{ setup, kernel := k }]⟩ := by
  rw [Site.serve, SwapFile.run_create, hcreate]
  change (Kernel.boot setup.pageSize setup.config ⟨files, ⟨SwapFile.makeName setup.name, node, none⟩⟩
    setup.sections setup.picks >>= fun k =>
      (Except.ok ⟨files, site.machines ++ [{ setup, kernel := k }]⟩ : Checked Site)) = _
  rw [hk]
  rfl

theorem handle?_of_machine? (hm : site.machine? i = some m) :
    site.directory.handle? i = some ⟨m.setup.name, m.kernel.swapFile⟩ := by
  rw [handle?_directory, hm]
  rfl

/-- What is done elsewhere in the directory leaves a kernel alone. -/
theorem Good.alone_elsewhere (h : site.Good)
    (hchange : Directory.Change site.directory fileCall site'.directory)
    (hname : site.directory.about? fileCall = some name) (hm : site.machine? i = some m)
    (hother : SwapFile.makeName name ≠ SwapFile.makeName m.setup.name)
    (halone : Alone site.files m) : Alone site'.files m := by
  have hhandle := handle?_of_machine? hm
  have hmade : m.kernel.swapFile.fileName = SwapFile.makeName m.setup.name := h.tidy.made hhandle
  obtain ⟨-, hcontent, -⟩ := hchange.leaves h.tidy hhandle hname (hmade ▸ hother)
  have hinside : m.kernel.swapFile.node < site.files.contents.length :=
    h.tidy.inside (Directory.Leads.of_handle hhandle)
  obtain ⟨k₀, k, lone, hboot, hrun, hstands, hself⟩ := halone
  exact ⟨k₀, k, lone, hboot, hrun,
    hstands.elsewhere (Nat.lt_of_lt_of_le hinside hchange.length_le) hcontent, hself⟩

/-- A new kernel starts as it would by itself. -/
theorem alone_of_boot {node : Nat} {files : HostFiles} {k : Kernel FileStore}
    (hcreate : site.files.create (SwapFile.makeName setup.name) = .ok (node, files))
    (hk : Kernel.boot setup.pageSize setup.config
      ⟨files, ⟨SwapFile.makeName setup.name, node, none⟩⟩ setup.sections setup.picks = .ok k)
    (hinside : node < files.contents.length) (hempty : files.content node = .empty) :
    Alone files { setup, kernel := k } := by
  let store : FileStore := ⟨⟨[(SwapFile.makeName setup.name, 0)], [.empty]⟩,
    ⟨SwapFile.makeName setup.name, 0, none⟩⟩
  obtain ⟨k₀, hk₀⟩ : ∃ k₀, Kernel.boot setup.pageSize setup.config store setup.sections setup.picks =
      .ok k₀ := Kernel.exists_boot hk
  obtain ⟨lone, hlone⟩ : ∃ lone, Kernel.boot setup.pageSize setup.config
      (⟨.empty⟩ : LoneFile none) setup.sections setup.picks = .ok lone := Kernel.exists_boot hk
  have hpath : HostFiles.pathError? {} (SwapFile.makeName setup.name) = none :=
    HostFiles.pathError?_eq_none (HostFiles.pathError?_of_create hcreate)
  refine ⟨k₀, k₀, lone, Kernel.bootWithSwapFile_eq hpath hk₀, rfl,
    Kernel.Stands.start hk (hempty ▸ hlone) rfl hinside, ?_⟩
  rw [Kernel.store_of_boot hk₀]
  exact Kernel.Stands.start hk₀ hlone rfl Nat.one_pos

/-- A kernel is set up on a file that was made or emptied for it. -/
theorem Good.boot {node : Nat} {files : HostFiles} {k : Kernel FileStore} (h : site.Good)
    (hcreate : site.files.create (SwapFile.makeName setup.name) = .ok (node, files))
    (hk : Kernel.boot setup.pageSize setup.config
      ⟨files, ⟨SwapFile.makeName setup.name, node, none⟩⟩ setup.sections setup.picks = .ok k) :
    Good ⟨files, site.machines ++ [{ setup, kernel := k }]⟩ := by
  have hfile : k.swapFile = ⟨SwapFile.makeName setup.name, node, none⟩ := by
    rw [Kernel.swapFile, Kernel.store_of_boot hk]
  have hdirectory : (Site.mk files (site.machines ++ [{ setup, kernel := k }])).directory =
      ⟨files, site.directory.handles ++
        [some ⟨setup.name, ⟨SwapFile.makeName setup.name, node, none⟩⟩]⟩ := by
    simp [directory, hfile]
  have hchange : Directory.Change site.directory (.create setup.name none)
      (Site.mk files (site.machines ++ [{ setup, kernel := k }])).directory := by
    rw [hdirectory]
    exact .of_create hcreate
  have hmachine : ∀ {j m'}, (Site.mk files (site.machines ++ [{ setup, kernel := k }])).machine? j =
      some m' → m' = { setup, kernel := k } ∨ site.machine? j = some m' := by
    intro j m' hm'
    rw [machine?_boot rfl] at hm'
    split at hm'
    · exact .inl (Option.some.inj hm').symm
    · exact .inr hm'
  obtain ⟨hsound, htlb⟩ := (Checked.ends_of_eq_ok hk).1 Kernel.ends_boot
  refine ⟨hchange.tidy h.tidy, ?_, ?_⟩
  · intro j m' hm'
    rcases hmachine hm' with rfl | hold
    · exact ⟨⟨_, hsound⟩, htlb, congrArg SwapFile.capacity hfile⟩
    · exact h.ready hold
  · intro j m' hm' hunshared
    rcases hmachine hm' with rfl | hold
    · obtain ⟨hinside, hempty⟩ := HostFiles.content_create hcreate fun hfind =>
        h.tidy.inside (.inl hfind)
      exact alone_of_boot hcreate hk hinside hempty
    · obtain ⟨hmem, -⟩ := machine?_eq_some.1 hold
      obtain ⟨hlt, -⟩ := List.getElem?_eq_some_iff.1 hmem
      obtain ⟨hunshared, hother⟩ := hunshared.of_boot hlt
      exact h.alone_elsewhere hchange rfl hold hother (h.alone hold hunshared)

/-- A request is answered as it would be by the kernel alone. -/
theorem Alone.request {files : HostFiles} {request : Request} {reply : Except PagingError Reply}
    {k : Kernel FileStore} (h : Alone files m)
    (hrun : (Kernel.perform request).run.run (m.kernel.within files) = .ok (reply, k)) :
    Alone k.swap.store.files (m.answered request reply k) := by
  obtain ⟨k₀, own, lone, hboot, hbefore, hstands, hself⟩ := h
  obtain ⟨lone', hlone, hnext, -⟩ := hstands.perform hrun
  have hanswer := hself.answers request
  rw [hlone] at hanswer
  cases hown : (Kernel.perform request).run.run (own.within own.swap.store.files) with
  | error v =>
    rw [hown] at hanswer
    cases hanswer
  | ok r =>
    obtain ⟨reply', own'⟩ := r
    rw [hown] at hanswer
    cases hanswer
    obtain ⟨lone'', hlone', hself', -⟩ := hself.perform hown
    cases hlone.symm.trans hlone'
    exact ⟨k₀, own', lone', hboot, Kernel.run_snoc hbefore hown, hnext, hself'⟩

/-- A kernel uses its file, or gives it up. -/
theorem Good.set {files : HostFiles} {new : Machine} (h : site.Good) (hm : site.machine? i = some m)
    (hsetup : new.setup = m.setup)
    (hchange : Directory.Change site.directory fileCall
      (Site.mk files (site.machines.set i new)).directory)
    (hname : site.directory.about? fileCall = some m.setup.name)
    (hnew : new.live = true → Ready new ∧ (Alone site.files m → Alone files new)) :
    Good ⟨files, site.machines.set i new⟩ := by
  obtain ⟨hmem, -⟩ := machine?_eq_some.1 hm
  have hmachine : ∀ {j m'}, (Site.mk files (site.machines.set i new)).machine? j = some m' →
      (j = i ∧ m' = new ∧ new.live = true) ∨ (j ≠ i ∧ site.machine? j = some m') := by
    intro j m' hm'
    rw [machine?_set hm] at hm'
    split at hm'
    · next heq =>
      split at hm'
      · next hlive => exact .inl ⟨heq, (Option.some.inj hm').symm, hlive⟩
      · cases hm'
    · next hne => exact .inr ⟨hne, hm'⟩
  refine ⟨hchange.tidy h.tidy, ?_, ?_⟩
  · intro j m' hm'
    obtain ⟨-, rfl, hlive⟩ | ⟨-, hold⟩ := hmachine hm'
    · exact (hnew hlive).1
    · exact h.ready hold
  · intro j m' hm' hunshared
    have hbefore := hunshared.of_set hm hsetup
    obtain ⟨rfl, rfl, hlive⟩ | ⟨hne, hold⟩ := hmachine hm'
    · exact (hnew hlive).2 (h.alone hm fun l m'' hl hl' => hsetup ▸ hbefore l m'' hl hl')
    · exact h.alone_elsewhere hchange hname hold (hbefore i m hmem hne.symm) (h.alone hold hbefore)

/-- A kernel carries out a request. -/
theorem Good.request {request : Request} {reply : Except PagingError Reply} {k : Kernel FileStore}
    (h : site.Good) (hm : site.machine? i = some m)
    (hrun : (Kernel.perform request).run.run (m.kernel.within site.files) = .ok (reply, k)) :
    Good ⟨k.swap.store.files, site.machines.set i (m.answered request reply k)⟩ := by
  obtain ⟨hmem, -⟩ := machine?_eq_some.1 hm
  obtain ⟨hlt, -⟩ := List.getElem?_eq_some_iff.1 hmem
  obtain ⟨⟨pins, hsound⟩, htlb, hcapacity⟩ := h.ready hm
  have hhandle := handle?_of_machine? hm
  have hinside : m.kernel.swapFile.node < site.files.contents.length :=
    h.tidy.inside (Directory.Leads.of_handle hhandle)
  have hstands := Kernel.Stands.of_sound hsound htlb hcapacity hinside
  obtain ⟨lone, -, hnext, hfile, hfiles⟩ := hstands.perform hrun
  -- the handle stays, and its file has other bytes
  have hdirectory : (Site.mk k.swap.store.files
      (site.machines.set i (m.answered request reply k))).directory = { site.directory with
        files := site.files.setContent m.kernel.swapFile.node lone.swap.store.bytes } := by
    have hhandles : (if m.live then some (Handle.mk m.setup.name k.swapFile) else none) =
        if m.live then some ⟨m.setup.name, m.kernel.swapFile⟩ else none := by rw [hfile]
    unfold directory
    rw [hfiles, List.map_set]
    congr 1
    refine List.ext_getElem? fun j => ?_
    by_cases heq : i = j
    · subst heq
      rw [List.getElem?_set_self (by simpa using hlt), List.getElem?_map, hmem]
      exact congrArg some hhandles
    · rw [List.getElem?_set_ne heq]
  have hchange : Directory.Change site.directory (.write i 0 [])
      (Site.mk k.swap.store.files (site.machines.set i (m.answered request reply k))).directory := by
    rw [hdirectory]
    exact .written hhandle _
  refine h.set hm rfl hchange (congrArg (Option.map Handle.name) hhandle) fun _ => ?_
  exact ⟨⟨hnext.sound, hnext.tlb, hnext.capacity⟩, fun halone => halone.request hrun⟩

/-- A kernel is scrapped. -/
theorem Good.scrap (h : site.Good) (hm : site.machine? i = some m) :
    Good ⟨m.kernel.swapFile.drop site.files, site.machines.set i { m with live := false }⟩ := by
  have hdirectory : (Site.mk (m.kernel.swapFile.drop site.files)
      (site.machines.set i { m with live := false })).directory =
        ⟨site.files.remove m.kernel.swapFile.fileName, site.directory.handles.set i none⟩ := by
    simp [directory, SwapFile.drop, List.map_set]
  have hchange : Directory.Change site.directory (.drop i)
      (Site.mk (m.kernel.swapFile.drop site.files)
        (site.machines.set i { m with live := false })).directory := by
    rw [hdirectory]
    exact .dropped (handle?_of_machine? hm)
  exact h.set hm rfl hchange (congrArg (Option.map Handle.name) (handle?_of_machine? hm)) nofun

theorem exists_machine_of_through {use : Machine → Checked Site}
    (hrun : site.through i use = .ok site') : ∃ m, site.machine? i = some m ∧ use m = .ok site' := by
  unfold through at hrun
  cases hm : site.machine? i with
  | none =>
    rw [hm] at hrun
    cases hrun
  | some m =>
    rw [hm] at hrun
    exact ⟨m, rfl, hrun⟩

theorem Good.serve (h : site.Good) (hrun : site.serve call = .ok site') : site'.Good := by
  cases call with
  | boot setup =>
    simp only [Site.serve, SwapFile.run_create] at hrun
    cases hcreate : site.files.create (SwapFile.makeName setup.name) with
    | error e =>
      rw [hcreate] at hrun
      cases hrun
      exact h
    | ok made =>
      obtain ⟨node, files⟩ := made
      rw [hcreate] at hrun
      obtain ⟨r, hmade, hrun⟩ := Checked.eq_ok_of_bind hrun
      cases hmade
      obtain ⟨k, hk, hsite⟩ := Checked.eq_ok_of_bind hrun
      cases hsite
      exact h.boot hcreate hk
  | request i request =>
    obtain ⟨m, hm, hrun⟩ := exists_machine_of_through hrun
    obtain ⟨⟨reply, k⟩, hreply, hsite⟩ := Checked.eq_ok_of_bind hrun
    cases hsite
    exact h.request hm hreply
  | scrap i =>
    obtain ⟨m, hm, hrun⟩ := exists_machine_of_through hrun
    cases hrun
    exact h.scrap hm

end Calls

/-! ### Any calls -/

section Runs

variable {start : Site}

/-- The sites that calls lead to. -/
inductive Reached (start : Site) : Site → Prop where
  | start : Reached start start
  | call {site site' : Site} {call : SiteCall} (hsite : Reached start site)
      (hrun : site.serve call = .ok site') : Reached start site'

theorem good_of_apart {files : HostFiles} (hfiles : files.Apart) : Good ⟨files, []⟩ := by
  have hnone : ∀ {i m}, (Site.mk files []).machine? i ≠ some m := nofun
  exact ⟨Directory.tidy_of_apart hfiles, fun hm => (hnone hm).elim, fun hm => (hnone hm).elim⟩

theorem Reached.good (hstart : start.Good) (h : Reached start site) : site.Good := by
  induction h with
  | start => exact hstart
  | call _ hrun ih => exact ih.serve hrun

theorem Reached.serveAll {calls : List SiteCall} (h : Reached start site)
    (hrun : calls.foldlM Site.serve site = .ok site') : Reached start site' := by
  induction calls generalizing site with
  | nil =>
    cases hrun
    exact h
  | cons call calls ih =>
    obtain ⟨next, hcall, hrun⟩ := Checked.eq_ok_of_bind hrun
    exact ih (h.call hcall) hrun

end Runs

end Site

/-- The kernel has answered all requests as it does when the directory is empty at first and
    nobody else uses it, and would answer the next one so. -/
def Machine.ActsAlone (files : HostFiles) (m : Machine) : Prop :=
  ∃ k₀ k, (Kernel.bootWithSwapFile m.setup.pageSize m.setup.config m.setup.sections
      m.setup.picks).run = .ok (.ok k₀) ∧
    (Kernel.run m.requests).run k₀ = .ok (m.replies, k) ∧
      ∀ request, Prod.fst <$> (Kernel.perform request).run.run (m.kernel.within files) =
        Prod.fst <$> (Kernel.perform request).run.run k

theorem Site.Alone.actsAlone {files : HostFiles} {m : Machine} (h : Alone files m) :
    m.ActsAlone files := by
  obtain ⟨k₀, k, lone, hboot, hrun, hstands, hself⟩ := h
  refine ⟨k₀, k, hboot, hrun, fun request => ?_⟩
  exact (hstands.answers request).trans (hself.answers request).symm

/-! ## Independence -/

/-- Take any directory, whatever was done there with swap files, or with kernels that have them
    for swap areas.  A call about one name leaves the handles of another one alone, and a kernel
    whose name no other one has acts alone.  Names count as the same that differ in hyphens and
    underscores only. -/
theorem swap_files_independent {files : HostFiles} (hfiles : files.Apart) :
    (∀ d, Directory.Reached ⟨files, []⟩ d → ∀ call name h handle, d.about? call = some name →
      d.handle? h = some handle → SwapFile.underscored name ≠ SwapFile.underscored handle.name →
        Checked.Ends (fun v => v = .overflow) (d.serve call) fun r =>
          Directory.Unaffected d r.2 h handle) ∧
    ∀ site, Site.Reached ⟨files, []⟩ site → ∀ i m, site.machine? i = some m →
      (∀ j m', site.machines[j]? = some m' → j ≠ i →
        SwapFile.underscored m'.setup.name ≠ SwapFile.underscored m.setup.name) →
          m.ActsAlone site.files := by
  refine ⟨fun d hd call name h handle hname hhandle hother => ?_, fun site hsite i m hm hothers => ?_⟩
  · have htidy : d.Tidy := hd.tidy (Directory.tidy_of_apart hfiles)
    have hfile : SwapFile.makeName name ≠ handle.file.fileName := by
      rw [htidy.made hhandle, ne_eq, SwapFile.makeName_eq_iff]
      exact hother
    exact (Directory.ends_serve hname).imp fun r hchange =>
      hchange.unaffected htidy hhandle hname hfile
  · have hgood : site.Good := hsite.good (Site.good_of_apart hfiles)
    have hunshared : site.Unshared i m := by
      intro j m' hm' hne
      rw [ne_eq, SwapFile.makeName_eq_iff]
      exact hothers j m' hm' hne
    exact (hgood.alone hm hunshared).actsAlone

/-! ## Two swap areas -/

section TwoAreas

open SwapFile

/-- A machine of one frame, whose processes have a stack of two pages. -/
def smallSetup (name : String) : Setup :=
  ⟨4, { physPages := 1, tlbSize := 1, stackPages := 2, swapFile := name }, [], []⟩

/-- Two such machines in one directory. -/
def Site.pair (k k' : Kernel FileStore) : Site :=
  ⟨twoFiles, [{ setup := smallSetup "swap_1", kernel := k },
    { setup := smallSetup "swap_2", kernel := k' }]⟩

/-- Both have a process with a page in the swap file before the first one is scrapped. -/
def scrapping : List SiteCall :=
  [.request 0 (.spawn []), .request 1 (.spawn []), .request 0 (.process 1 (.storeByte 0 5)),
    .request 1 (.process 1 (.storeByte 0 7)), .request 1 (.process 1 (.storeByte 4 8)),
    .request 0 (.process 1 (.storeByte 4 6)), .scrap 0, .request 1 (.process 1 (.loadByte 0))]

theorem Site.reached_pair {k k' : Kernel FileStore}
    (hk : Kernel.boot 4 (smallSetup "swap_1").config ⟨oneFile, firstHandle.file⟩ [] [] = .ok k)
    (hk' : Kernel.boot 4 (smallSetup "swap_2").config ⟨twoFiles, (secondHandle none).file⟩ [] [] =
      .ok k') : Site.Reached ⟨{}, []⟩ (Site.pair k k') := by
  have hboot : Site.serve ⟨{}, []⟩ (.boot (smallSetup "swap_1")) =
      .ok ⟨oneFile, [{ setup := smallSetup "swap_1", kernel := k }]⟩ :=
    Site.serve_boot create_swap_1 hk
  have hboot' : Site.serve ⟨oneFile, [{ setup := smallSetup "swap_1", kernel := k }]⟩
      (.boot (smallSetup "swap_2")) = .ok (Site.pair k k') := Site.serve_boot create_swap_2 hk'
  exact (Site.Reached.start.call hboot).call hboot'

theorem exists_scrapped : ∃ site m, Site.Reached ⟨{}, []⟩ site ∧
    site.machines.map (·.setup.name) = ["swap_1", "swap_2"] ∧ site.machine? 1 = some m ∧
      m.replies = [.ok (.spawned 1 2), .ok .done, .ok .done, .ok (.byte 7)] := by
  have hrun : (Kernel.boot 4 (smallSetup "swap_1").config
      (FileStore.mk oneFile firstHandle.file) [] [] >>= fun k =>
        Kernel.boot 4 (smallSetup "swap_2").config
          (FileStore.mk twoFiles (secondHandle none).file) [] [] >>= fun k' =>
            scrapping.foldlM Site.serve (Site.pair k k') >>= fun site =>
              .ok (site.machines.map (·.setup.name), (site.machine? 1).map (·.replies))).toOption =
      some (["swap_1", "swap_2"],
        some [.ok (.spawned 1 2), .ok .done, .ok .done, .ok (.byte 7)]) := by
    decide +kernel
  obtain ⟨k, hk, hrun⟩ := Checked.exists_of_toOption_bind hrun
  obtain ⟨k', hk', hrun⟩ := Checked.exists_of_toOption_bind hrun
  obtain ⟨site, hcalls, hshown⟩ := Checked.exists_of_toOption_bind hrun
  obtain ⟨hnames, hreplies⟩ := Prod.mk.inj (Option.some.inj hshown)
  obtain ⟨m, hm, hreplies⟩ := Option.map_eq_some_iff.1 hreplies
  exact ⟨site, m, (Site.reached_pair hk hk').serveAll hcalls, hnames, hm, hreplies⟩

/-- One of two handles is given up, and one of two kernels is scrapped. -/
theorem swap_files_independent_of_drop :
    (∃ d handle, Directory.Reached ⟨{}, []⟩ d ∧ d.handle? 1 = some handle ∧
      handle.name = "swap_2" ∧ d.about? (.drop 0) = some "swap_1" ∧
        Checked.Ends (fun v => v = .overflow) (d.serve (.drop 0)) fun r =>
          Directory.Unaffected d r.2 1 handle) ∧
    ∃ site m, Site.Reached ⟨{}, []⟩ site ∧ site.machine? 1 = some m ∧
      m.replies = [.ok (.spawned 1 2), .ok .done, .ok .done, .ok (.byte 7)] ∧
        m.ActsAlone site.files := by
  have hapart : HostFiles.Apart {} := ⟨nofun, nofun⟩
  constructor
  · have hd : Directory.Reached ⟨{}, []⟩
        ⟨twoFiles, [some firstHandle, some (secondHandle none)]⟩ :=
      reached_oneFile.call serve_create_swap_2
    exact ⟨_, _, hd, rfl, rfl, rfl,
      (swap_files_independent hapart).1 _ hd (.drop 0) "swap_1" 1 _ rfl rfl (by decide +kernel)⟩
  · obtain ⟨site, m, hsite, hnames, hm, hreplies⟩ := exists_scrapped
    have hname : ∀ {j : Nat} {m' : Machine}, site.machines[j]? = some m' →
        ["swap_1", "swap_2"][j]? = some m'.setup.name := by
      intro j m' hm'
      rw [← hnames, List.getElem?_map, hm']
      rfl
    refine ⟨site, m, hsite, hm, hreplies,
      (swap_files_independent hapart).2 site hsite 1 m hm fun j m' hm' hne => ?_⟩
    have hlast : "swap_2" = m.setup.name := Option.some.inj (hname (Site.machine?_eq_some.1 hm).1)
    have hother := hname hm'
    match j, hne with
    | 0, _ =>
      rw [← hlast, ← Option.some.inj hother]
      decide +kernel
    | j + 2, _ => cases hother

/-- The one file, with four bytes. -/
def fullFile : HostFiles := oneFile.setContent 0 ((oneFile.content 0).put 0 [1, 2, 3, 4])

/-- Another swap area whose name has a hyphen empties the file of a swap area whose name has an
    underscore. -/
theorem hyphen_shares_file : ∃ d d' handle, Directory.Reached ⟨{}, []⟩ d ∧
    d.handle? 0 = some handle ∧ handle.name = "swap_1" ∧ "swap-1" ≠ handle.name ∧
      handle.file.length d.files = 4 ∧ d.serve (.create "swap-1" none) = .ok (.ok (.made 1), d') ∧
        d'.handle? 0 = some handle ∧ handle.file.length d'.files = 0 := by
  have hwritten : Directory.serve ⟨oneFile, [some firstHandle]⟩ (.write 0 0 [1, 2, 3, 4]) =
      .ok (.ok .done, ⟨fullFile, [some firstHandle]⟩) := rfl
  have hcreate : fullFile.create (makeName "swap-1") = .ok (0, oneFile) := by
    have hsame : makeName "swap-1" = makeName "swap_1" := by decide +kernel
    have hfind : fullFile.find? (makeName "swap_1") = some 0 := List.lookup_cons_self
    rw [HostFiles.create, hsame, pathError?_swap_1, hfind]
    rfl
  exact ⟨⟨fullFile, [some firstHandle]⟩, _, firstHandle, reached_oneFile.call hwritten, rfl, rfl,
    by decide, rfl, Directory.serve_create hcreate, rfl, rfl⟩

end TwoAreas

end DemandPaging

/-
  A demonstration.  A process with three read-only code pages and eight stack
  pages runs on a machine of four frames: it touches every page, is switched out,
  checks what it finds on a second pass, and exits.
-/
import DemandPaging.Kernel.Run

namespace DemandPaging.Demo

/-- The size of a page. -/
def pageSize : Nat := 1024

/-- The number of code pages. -/
def codePages : Nat := 3

/-- The machine. -/
def config : Config := { physPages := 4, stackPages := 8, swapFile := "demo" }

/-- The code. -/
def code : Bytes := (List.range (codePages * pageSize)).map fun i => UInt8.ofNat (i % 253)

/-- The lines printed so far, and the kernel. -/
structure State where
  lines : List String := []
  kernel : Kernel FileStore

/-- A step of the demonstration. -/
abbrev DemoM := Action State PagingError

/-- Prints a line. -/
def say (line : String) : DemoM Unit :=
  modify fun s => { s with lines := s.lines ++ [line] }

/-- An operation of the kernel. -/
def onKernel {α : Type} (act : KernelM FileStore α) : DemoM α :=
  Action.within (·.kernel) (fun kernel s => { s with kernel }) id act

/-- Prints the state of memory. -/
def sayStats (when : String) : DemoM Unit := do
  let stats := (← get).kernel.stats.render
  say s!"{when}: {stats}"

/-- Touches every page in order: reads the code, and writes its number to each
    stack page. -/
def firstPass (pid : Pid) (numPages : Nat) : DemoM Unit :=
  (List.range numPages).forM fun vpn =>
    if vpn < codePages then
      discard (onKernel (Kernel.loadWord pid (vpn * pageSize)))
    else
      onKernel (Kernel.storeWord pid (vpn * pageSize) vpn)

/-- Looks for the number in each stack page. -/
def secondPass (pid : Pid) (numPages : Nat) : DemoM Unit :=
  (List.range numPages).forM fun vpn =>
    if vpn < codePages then pure ()
    else do
      let word ← onKernel (Kernel.loadWord pid (vpn * pageSize))
      unless word = vpn do
        say s!"Stack page {vpn} holds {word}, expected {vpn}"

/-- The demonstration, from a kernel that knows the code as section 0. -/
def script : DemoM Unit := do
  say "---- Kernel initialized ----"
  let pid ← onKernel (Kernel.spawn [0])
  let numPages := (← onKernel (Kernel.process pid)).numPages
  firstPass pid numPages
  onKernel Kernel.flush
  sayStats "After first pass"
  -- the code pages were dropped unchanged, so they come back from the image
  let (result, buffer) ← onKernel (ExceptT.lift (Kernel.readBytes pid 0 (Bytes.zeros pageSize)))
  discard (Action.ofExcept id result)
  if buffer = code.take pageSize then
    say "Code page 0 matches the image"
  else
    say "Code page 0 differs from the image"
  secondPass pid numPages
  let loads := ((← get).kernel.sections[0]?.map (·.loads)).getD 0
  say s!"Image loads of .text: {loads}"
  sayStats "After second pass"
  onKernel (Kernel.exit pid)
  sayStats "After exit"
  say "---- Kernel halted ----"

/-- Runs the demonstration.  Answers the lines it prints, and how it ends. -/
def run : Checked (List String × Except PagingError Unit) := do
  let text ← Section.ofData ".text" 0 true pageSize code
  match ← ((Kernel.bootWithSwapFile pageSize config [text] []).run :
      Checked (Except PagingError (Kernel FileStore))) with
  | .error e => return ([], .error e)
  | .ok kernel =>
    let (result, final) ← (script.run.run { kernel } : Checked (Except PagingError Unit × State))
    return (final.lines, result)

end DemandPaging.Demo

import Neutralino.Base.Json
import Neutralino.Library.Runs
import Mathlib.Data.List.AList

/-!
The registry of spawned processes: `os::spawnProcess`, `os::updateSpawnedProcess`,
`os.getSpawnedProcesses` and the thread that waits for a process to exit.

* `Process`: the object of a process, with what the client made of it and how
  often it was deleted.
* `SpawnedProcesses`: the registry, the counter of virtual pids, the objects in
  the order in which they were made, and the exit threads that are waiting.
* `spawnProcess`, `updateSpawnedProcess`, `getSpawnedProcesses`, `exitProcess`: one
  step each, since each of them holds the lock.
* `Accounted`: what holds after any steps; `operations_defined`: **no object is used
  after it is deleted**.
* `virtualPids_unique_iff`: **when virtual pids are unique**.  The counter comes back
  to a pid after as many processes as there are pids, whoever holds it.
-/

namespace Neutralino.os

open Runs

/-- `INT_MAX`. -/
def intMax : ℤ := 2 ^ 31 - 1

/-- A process object: the pid of the system, what was written to it, whether it
was killed, and how often it was deleted. -/
structure Process where
  pid : ℤ
  stdIn : Str := []
  stdInOpen : Bool := true
  killed : Bool := false
  deletes : ℕ := 0

/-- The thread that waits for a process, with the virtual pid and the object that
it has captured. -/
structure ExitThread where
  virtualPid : ℤ
  process : ℕ
  deriving DecidableEq

/-- `spawnedProcesses`, `nextVirtualPid`, the objects made so far and the exit threads
that are waiting; the address of an object is its place among them. -/
structure SpawnedProcesses where
  spawnedProcesses : AList fun _ : ℤ => ℕ := ∅
  nextVirtualPid : ℤ := 0
  processes : List Process := []
  threads : List ExitThread := []

/-- `SpawnedProcessEvent`. -/
structure SpawnedProcessEvent where
  id : ℤ := -1
  type : Str := []
  stdIn : Str := []

/-- `spawnProcess`, for a process to which the system gives `pid`: what it returns,
and the registry. -/
def spawnProcess (s : SpawnedProcesses) (pid : ℤ) : (ℤ × ℤ) × SpawnedProcesses :=
  let virtualPid := s.nextVirtualPid
  ((virtualPid, pid), {
    spawnedProcesses := s.spawnedProcesses.insert virtualPid s.processes.length
    nextVirtualPid := if virtualPid = intMax then 0 else virtualPid + 1
    processes := s.processes ++ [{ pid := pid }]
    threads := ⟨virtualPid, s.processes.length⟩ :: s.threads })

/-- The object at an address, which must not have been deleted. -/
def SpawnedProcesses.object (s : SpawnedProcesses) (address : ℕ) : Except Fault Process :=
  match s.processes[address]? with
  | none => .error .undefinedBehaviour
  | some process => if process.deletes = 0 then .ok process else .error .undefinedBehaviour

/-- The registry with another object at an address. -/
def SpawnedProcesses.setObject (s : SpawnedProcesses) (address : ℕ) (process : Process) :
    SpawnedProcesses :=
  { s with processes := s.processes.set address process }

/-- `updateSpawnedProcess`. -/
def updateSpawnedProcess (s : SpawnedProcesses) (evt : SpawnedProcessEvent) :
    Except Fault (Bool × SpawnedProcesses) :=
  match s.spawnedProcesses.lookup evt.id with
  | none => .ok (false, s)
  | some address =>
      if evt.type = "exit" then do
        let childProcess ← s.object address
        return (true, s.setObject address { childProcess with killed := true })
      else if evt.type = "stdIn" then do
        let childProcess ← s.object address
        return (true, s.setObject address
          { childProcess with stdIn := childProcess.stdIn ++ evt.stdIn })
      else if evt.type = "stdInEnd" then do
        let childProcess ← s.object address
        return (true, s.setObject address { childProcess with stdInOpen := false })
      else .ok (false, s)

/-- `getSpawnedProcesses`: the virtual pids with the pids, up to their order. -/
def getSpawnedProcesses (s : SpawnedProcesses) : Except Fault (List (ℤ × ℤ)) :=
  s.spawnedProcesses.entries.mapM fun entry => do return (entry.1, (← s.object entry.2).pid)

/-- The end of an exit thread: the entry of its virtual pid is erased, and its
object deleted. -/
def exitProcess (s : SpawnedProcesses) (thread : ExitThread) : SpawnedProcesses where
  spawnedProcesses := s.spawnedProcesses.erase thread.virtualPid
  nextVirtualPid := s.nextVirtualPid
  processes := s.processes.modify thread.process fun process =>
    { process with deletes := process.deletes + 1 }
  threads := s.threads.erase thread

/-! ### Runs -/

/-- What happens to the registry. -/
inductive Op where
  | spawnProcess (pid : ℤ)
  | updateSpawnedProcess (evt : SpawnedProcessEvent)
  | getSpawnedProcesses
  | exit (thread : ExitThread)

/-- The steps: the calls, where they are defined, and the ends of the exit threads. -/
inductive Step : SpawnedProcesses → Op → SpawnedProcesses → Prop
  | spawnProcess (s : SpawnedProcesses) (pid : ℤ) :
      Step s (.spawnProcess pid) (os.spawnProcess s pid).2
  | updateSpawnedProcess {s t : SpawnedProcesses} {evt : SpawnedProcessEvent} {done : Bool} :
      os.updateSpawnedProcess s evt = .ok (done, t) → Step s (.updateSpawnedProcess evt) t
  | getSpawnedProcesses (s : SpawnedProcesses) : Step s .getSpawnedProcesses s
  | exit {s : SpawnedProcesses} {thread : ExitThread} :
      thread ∈ s.threads → Step s (.exit thread) (exitProcess s thread)

/-- A virtual pid is given to a process while none is registered under it, and
the exit of a process takes its own entry out of the registry and no other. -/
def PidsUnique (s : SpawnedProcesses) : Op → Prop
  | .spawnProcess pid => s.spawnedProcesses.lookup (os.spawnProcess s pid).1.1 = none
  | .exit thread => s.spawnedProcesses.lookup thread.virtualPid = some thread.process ∧
      (exitProcess s thread).spawnedProcesses.lookup thread.virtualPid = none ∧
        ∀ id ≠ thread.virtualPid, (exitProcess s thread).spawnedProcesses.lookup id =
          s.spawnedProcesses.lookup id
  | _ => True

/-- How often each object was deleted. -/
def SpawnedProcesses.deletes (s : SpawnedProcesses) : List ℕ := s.processes.map Process.deletes

/-- Every object was deleted once if its exit thread has ended, and is there
otherwise. -/
def DeletedOnce (s : SpawnedProcesses) : Prop :=
  ∀ address n, s.deletes[address]? = some n →
    n = if address ∈ s.threads.map ExitThread.process then 0 else 1

/-- Every registered entry points to an object that is not deleted, and every
object is deleted once. -/
structure ObjectsSound (s : SpawnedProcesses) : Prop where
  entry : ∀ id address, s.spawnedProcesses.lookup id = some address →
    s.deletes[address]? = some 0
  deleted : DeletedOnce s

/-- No process is still waited for that was spawned a multiple of `2 ^ 31`
processes ago. -/
def OutlivedByNone (s : SpawnedProcesses) : Op → Prop
  | .spawnProcess _ =>
      ∀ thread ∈ s.threads, (s.processes.length - thread.process) % 2 ^ 31 ≠ 0
  | _ => True

/-! ### What every step keeps -/

/-- What holds in every state: the counter and the pids follow the number of
processes, an entry is that of a waiting thread, and objects are deleted once. -/
structure Accounted (s : SpawnedProcesses) : Prop where
  next : s.nextVirtualPid = ((s.processes.length % 2 ^ 31 : ℕ) : ℤ)
  thread : ∀ thread ∈ s.threads, thread.process < s.processes.length ∧
    thread.virtualPid = ((thread.process % 2 ^ 31 : ℕ) : ℤ)
  nodup : (s.threads.map ExitThread.process).Nodup
  entry : ∀ id address, s.spawnedProcesses.lookup id = some address → ⟨id, address⟩ ∈ s.threads
  deleted : DeletedOnce s

lemma accounted_empty : Accounted {} :=
  ⟨rfl, by simp, by simp, by simp, by simp [DeletedOnce, SpawnedProcesses.deletes]⟩

/-- An object that is there. -/
lemma object_eq_ok {s : SpawnedProcesses} {address : ℕ} {process : Process} :
    s.object address = .ok process ↔
      s.processes[address]? = some process ∧ process.deletes = 0 := by
  rw [SpawnedProcesses.object]
  cases s.processes[address]? with
  | none => simp
  | some process' =>
      by_cases hdeletes : process'.deletes = 0
      · simp only [hdeletes, if_true, Except.ok.injEq, Option.some.injEq]
        constructor
        · rintro rfl
          exact ⟨rfl, hdeletes⟩
        · exact fun h => h.1
      · simp only [hdeletes, if_false, reduceCtorEq, Option.some.injEq, false_iff, not_and]
        rintro rfl
        exact hdeletes

/-- An update leaves everything but what the object was told. -/
lemma updateSpawnedProcess_keeps {s t : SpawnedProcesses} {evt : SpawnedProcessEvent} {done : Bool}
    (h : updateSpawnedProcess s evt = .ok (done, t)) :
    t.spawnedProcesses = s.spawnedProcesses ∧ t.nextVirtualPid = s.nextVirtualPid ∧
      t.threads = s.threads ∧ t.deletes = s.deletes := by
  have hset : ∀ (address : ℕ) (f : Process → Process), (∀ process, (f process).deletes = process.deletes) →
      (do let process ← s.object address; return (true, s.setObject address (f process)) :
        Except Fault (Bool × SpawnedProcesses)) = .ok (done, t) →
      t.spawnedProcesses = s.spawnedProcesses ∧ t.nextVirtualPid = s.nextVirtualPid ∧
        t.threads = s.threads ∧ t.deletes = s.deletes := by
    intro address f hf h
    obtain ⟨process, hprocess, h⟩ := bind_eq_ok.mp h
    obtain ⟨-, rfl⟩ := Prod.mk.inj (Except.ok.inj h)
    obtain ⟨hget, -⟩ := object_eq_ok.mp hprocess
    refine ⟨rfl, rfl, rfl, ?_⟩
    show (s.processes.set address (f process)).map Process.deletes = s.processes.map Process.deletes
    obtain ⟨hlt, hget⟩ := List.getElem?_eq_some_iff.mp hget
    have hlt' : address < (s.processes.map Process.deletes).length := by simpa using hlt
    have hdeletes : (s.processes.map Process.deletes)[address] = (f process).deletes := by
      rw [List.getElem_map, hget, hf]
    rw [List.map_set, ← hdeletes]
    exact List.set_getElem_self hlt'
  rw [updateSpawnedProcess] at h
  cases hlookup : s.spawnedProcesses.lookup evt.id with
  | none =>
      rw [hlookup] at h
      cases h
      exact ⟨rfl, rfl, rfl, rfl⟩
  | some address =>
      rw [hlookup] at h
      simp only at h
      split_ifs at h
      · exact hset address (fun process => { process with killed := true }) (fun _ => rfl) h
      · exact hset address (fun process => { process with stdIn := process.stdIn ++ evt.stdIn })
          (fun _ => rfl) h
      · exact hset address (fun process => { process with stdInOpen := false }) (fun _ => rfl) h
      · cases h
        exact ⟨rfl, rfl, rfl, rfl⟩

namespace Accounted

variable {s : SpawnedProcesses} (hs : Accounted s)

include hs

/-- A waiting thread is known by its object. -/
lemma eq_of_process_eq {thread thread' : ExitThread} (h : thread ∈ s.threads)
    (h' : thread' ∈ s.threads) (heq : thread.process = thread'.process) : thread = thread' :=
  List.inj_on_of_nodup_map hs.nodup h h' heq

lemma mem_erase {thread thread' : ExitThread} :
    thread' ∈ s.threads.erase thread ↔ thread' ≠ thread ∧ thread' ∈ s.threads :=
  (List.Nodup.of_map _ hs.nodup).mem_erase_iff

lemma spawnProcess (pid : ℤ) : Accounted (os.spawnProcess s pid).2 := by
  have hlength : (os.spawnProcess s pid).2.processes.length = s.processes.length + 1 := by
    simp [os.spawnProcess]
  refine ⟨?_, ?_, ?_, ?_, ?_⟩
  · show (if s.nextVirtualPid = intMax then 0 else s.nextVirtualPid + 1) = _
    rw [hlength, hs.next, intMax]
    split_ifs with hmax
    · omega
    · omega
  · intro thread hthread
    rw [hlength]
    rcases List.mem_cons.mp hthread with rfl | hthread
    · exact ⟨Nat.lt_succ_self _, hs.next⟩
    · exact ⟨Nat.lt_succ_of_lt (hs.thread thread hthread).1, (hs.thread thread hthread).2⟩
  · refine List.nodup_cons.mpr ⟨fun hmem => ?_, hs.nodup⟩
    obtain ⟨thread, hthread, heq⟩ := List.mem_map.mp hmem
    exact absurd heq (hs.thread thread hthread).1.ne
  · intro id address h
    by_cases hid : id = s.nextVirtualPid
    · subst hid
      obtain rfl : s.processes.length = address := by simpa [os.spawnProcess] using h
      exact List.mem_cons_self
    · have hold : s.spawnedProcesses.lookup id = some address := by
        simpa [os.spawnProcess, AList.lookup_insert_ne hid] using h
      exact List.mem_cons_of_mem _ (hs.entry id address hold)
  · intro address n h
    have hdeletes : (os.spawnProcess s pid).2.deletes = s.deletes ++ [0] := by
      simp [SpawnedProcesses.deletes, os.spawnProcess]
    have hlength : s.deletes.length = s.processes.length := by simp [SpawnedProcesses.deletes]
    rw [hdeletes] at h
    show n = if address ∈ s.processes.length :: s.threads.map ExitThread.process then 0 else 1
    by_cases heq : address = s.processes.length
    · rw [heq, ← hlength, List.getElem?_append_right (le_refl _)] at h
      rw [heq, if_pos List.mem_cons_self]
      simpa using h.symm
    · have hlt : address < s.deletes.length := by
        have hlt' := (List.getElem?_eq_some_iff.mp h).1
        rw [List.length_append, List.length_singleton] at hlt'
        omega
      rw [List.getElem?_append_left hlt] at h
      have hmem : address ∈ s.processes.length :: s.threads.map ExitThread.process ↔
          address ∈ s.threads.map ExitThread.process := by simp [heq]
      rw [hs.deleted address n h]
      simp only [hmem]

lemma exitProcess {thread : ExitThread} (hthread : thread ∈ s.threads) :
    Accounted (os.exitProcess s thread) := by
  have hmem : ∀ address, address ∈ (s.threads.erase thread).map ExitThread.process ↔
      address ≠ thread.process ∧ address ∈ s.threads.map ExitThread.process := by
    intro address
    simp only [List.mem_map, hs.mem_erase]
    constructor
    · rintro ⟨thread', ⟨hne, hthread'⟩, rfl⟩
      exact ⟨fun heq => hne (hs.eq_of_process_eq hthread' hthread heq), thread', hthread', rfl⟩
    · rintro ⟨hne, thread', hthread', rfl⟩
      exact ⟨thread', ⟨fun heq => hne (heq ▸ rfl), hthread'⟩, rfl⟩
  have hlength : (os.exitProcess s thread).processes.length = s.processes.length :=
    List.length_modify _ _ _
  refine ⟨hlength ▸ hs.next, ?_, ?_, ?_, ?_⟩
  · intro thread' hthread'
    rw [hlength]
    exact hs.thread thread' (List.mem_of_mem_erase hthread')
  · exact hs.nodup.sublist (List.erase_sublist.map _)
  · intro id address h
    have hid : id ≠ thread.virtualPid := by
      rintro rfl
      simp [os.exitProcess] at h
    have hold : s.spawnedProcesses.lookup id = some address := by
      simpa [os.exitProcess, AList.lookup_erase_ne hid] using h
    refine hs.mem_erase.mpr ⟨?_, hs.entry id address hold⟩
    rintro rfl
    exact hid rfl
  · intro address n h
    show n = if address ∈ (s.threads.erase thread).map ExitThread.process then 0 else 1
    simp only [hmem]
    rw [SpawnedProcesses.deletes, os.exitProcess, List.getElem?_map, List.getElem?_modify] at h
    by_cases heq : thread.process = address
    · obtain ⟨process, hprocess, rfl⟩ : ∃ process, s.processes[address]? = some process ∧
          process.deletes + 1 = n := by simpa [heq] using h
      have hzero := hs.deleted address process.deletes (by simp [SpawnedProcesses.deletes, hprocess])
      rw [if_pos (List.mem_map.mpr ⟨thread, hthread, heq⟩)] at hzero
      simp [heq, hzero]
    · have hold : s.deletes[address]? = some n := by
        simpa [SpawnedProcesses.deletes, heq] using h
      simpa [Ne.symm heq] using hs.deleted address n hold

lemma step {op : Op} {t : SpawnedProcesses} (h : Step s op t) : Accounted t := by
  cases h with
  | spawnProcess pid => exact hs.spawnProcess pid
  | getSpawnedProcesses => exact hs
  | exit hthread => exact hs.exitProcess hthread
  | updateSpawnedProcess h =>
      obtain ⟨hentries, hnext, hthreads, hdeletes⟩ := updateSpawnedProcess_keeps h
      have hlength : t.processes.length = s.processes.length := by
        simpa [SpawnedProcesses.deletes] using congrArg List.length hdeletes
      refine ⟨?_, ?_, ?_, ?_, ?_⟩
      · rw [hnext, hlength]
        exact hs.next
      · rw [hthreads, hlength]
        exact hs.thread
      · rw [hthreads]
        exact hs.nodup
      · rw [hentries, hthreads]
        exact hs.entry
      · rw [DeletedOnce, hdeletes, hthreads]
        exact hs.deleted

/-- The object of a registered entry is there. -/
lemma deletes_of_lookup {id : ℤ} {address : ℕ} (h : s.spawnedProcesses.lookup id = some address) :
    s.deletes[address]? = some 0 := by
  have hthread := hs.entry id address h
  have hlt : address < s.deletes.length := by
    simpa [SpawnedProcesses.deletes] using (hs.thread _ hthread).1
  obtain ⟨n, hn⟩ : ∃ n, s.deletes[address]? = some n := ⟨_, List.getElem?_eq_getElem hlt⟩
  have hzero := hs.deleted address n hn
  rw [if_pos (List.mem_map.mpr ⟨_, hthread, rfl⟩)] at hzero
  rw [hn, hzero]

lemma objectsSound : ObjectsSound s := ⟨fun _ _ h => hs.deletes_of_lookup h, hs.deleted⟩

/-- The object of a registered entry can be used. -/
lemma exists_object {id : ℤ} {address : ℕ} (h : s.spawnedProcesses.lookup id = some address) :
    ∃ process, s.object address = .ok process := by
  obtain ⟨process, hprocess, hdeletes⟩ : ∃ process, s.processes[address]? = some process ∧
      process.deletes = 0 := by simpa [SpawnedProcesses.deletes] using hs.deletes_of_lookup h
  exact ⟨process, object_eq_ok.mpr ⟨hprocess, hdeletes⟩⟩

end Accounted

/-- **No object is used after it is deleted**: the calls are defined in every state. -/
theorem operations_defined {trace : List (Op × SpawnedProcesses)} (h : Run Step {} trace) :
    ∀ x ∈ trace, (∀ evt, ∃ result, updateSpawnedProcess x.2 evt = .ok result) ∧
      ∃ pids, getSpawnedProcesses x.2 = .ok pids := by
  intro x hx
  have hs : Accounted x.2 :=
    Run.invariant (fun _ _ _ hs hst => Accounted.step hs hst) h accounted_empty x hx
  constructor
  · intro evt
    rw [updateSpawnedProcess]
    cases hlookup : x.2.spawnedProcesses.lookup evt.id with
    | none => exact ⟨_, rfl⟩
    | some address =>
        obtain ⟨process, hprocess⟩ := hs.exists_object hlookup
        simp only [hprocess, ok_bind]
        split_ifs <;> exact ⟨_, rfl⟩
  · have hobject : ∀ entry ∈ x.2.spawnedProcesses.entries, ∃ process,
        x.2.object entry.2 = .ok process :=
      fun entry hentry => hs.exists_object (AList.mem_lookup_iff.mpr hentry)
    rw [getSpawnedProcesses]
    generalize x.2.spawnedProcesses.entries = entries at hobject
    induction entries with
    | nil => exact ⟨[], rfl⟩
    | cons entry entries ih =>
        obtain ⟨process, hprocess⟩ := hobject entry List.mem_cons_self
        obtain ⟨pids, hpids⟩ := ih fun e he => hobject e (List.mem_cons_of_mem _ he)
        rw [List.mapM_cons, hprocess, hpids]
        exact ⟨_, rfl⟩

/-! ### The condition -/

/-- Every process that is waited for is registered under its virtual pid. -/
def AllRegistered (s : SpawnedProcesses) : Prop :=
  ∀ thread ∈ s.threads, s.spawnedProcesses.lookup thread.virtualPid = some thread.process

section Condition

variable {s t : SpawnedProcesses} {op : Op} (hs : Accounted s)

include hs

/-- The processes of a pid that is given out again. -/
lemma virtualPid_eq_next_iff {thread : ExitThread} (h : thread ∈ s.threads) :
    thread.virtualPid = s.nextVirtualPid ↔
      (s.processes.length - thread.process) % 2 ^ 31 = 0 := by
  obtain ⟨hlt, hpid⟩ := hs.thread thread h
  rw [hpid, hs.next]
  omega

variable (hregistered : AllRegistered s)

include hregistered

/-- Two waiting processes have different virtual pids. -/
lemma eq_of_virtualPid_eq {thread thread' : ExitThread} (h : thread ∈ s.threads)
    (h' : thread' ∈ s.threads) (heq : thread.virtualPid = thread'.virtualPid) :
    thread = thread' := by
  have hlookup := hregistered thread h
  rw [heq, hregistered thread' h'] at hlookup
  exact hs.eq_of_process_eq h h' (Option.some.inj hlookup).symm

/-- Pids are unique in a step exactly if the process spawned by it outlives none. -/
lemma pidsUnique_iff (h : Step s op t) : PidsUnique s op ↔ OutlivedByNone s op := by
  cases h with
  | updateSpawnedProcess _ => exact Iff.rfl
  | getSpawnedProcesses => exact Iff.rfl
  | exit hthread =>
      refine iff_of_true ⟨hregistered _ hthread, ?_, fun id hid => ?_⟩ trivial
      · exact AList.lookup_erase _ _
      · exact AList.lookup_erase_ne hid
  | spawnProcess pid =>
      constructor
      · intro hfree thread hthread hmod
        have hlookup := hregistered thread hthread
        rw [(virtualPid_eq_next_iff hs hthread).mpr hmod] at hlookup
        have hnone : s.spawnedProcesses.lookup s.nextVirtualPid = none := hfree
        rw [hlookup] at hnone
        cases hnone
      · intro houtlived
        show s.spawnedProcesses.lookup s.nextVirtualPid = none
        rw [Option.eq_none_iff_forall_ne_some]
        intro address haddress
        have hthread := hs.entry _ address haddress
        exact houtlived _ hthread ((virtualPid_eq_next_iff hs hthread).mp rfl)

/-- Such a step keeps every process registered. -/
lemma allRegistered_step (houtlived : OutlivedByNone s op) (h : Step s op t) : AllRegistered t := by
  cases h with
  | getSpawnedProcesses => exact hregistered
  | updateSpawnedProcess h =>
      obtain ⟨hentries, -, hthreads, -⟩ := updateSpawnedProcess_keeps h
      rw [AllRegistered, hentries, hthreads]
      exact hregistered
  | spawnProcess pid =>
      intro thread hthread
      rcases List.mem_cons.mp hthread with rfl | hthread
      · exact AList.lookup_insert _
      · have hne : thread.virtualPid ≠ s.nextVirtualPid := fun heq =>
          houtlived thread hthread ((virtualPid_eq_next_iff hs hthread).mp heq)
        exact (AList.lookup_insert_ne hne).trans (hregistered thread hthread)
  | @exit thread hthread =>
      intro thread' hthread'
      obtain ⟨hne, hold⟩ := hs.mem_erase.mp hthread'
      have hpid : thread'.virtualPid ≠ thread.virtualPid := fun heq =>
        hne (eq_of_virtualPid_eq hs hregistered hold hthread heq)
      exact (AList.lookup_erase_ne hpid).trans (hregistered thread' hold)

end Condition

/-- **Virtual pids are unique, and objects are deleted once**, along a run exactly
if no process is spawned while another is waited for that was spawned a multiple
of `2 ^ 31` processes before. -/
theorem virtualPids_unique_iff {trace : List (Op × SpawnedProcesses)} (h : Run Step {} trace) :
    (Along PidsUnique {} trace ∧ ∀ x ∈ trace, ObjectsSound x.2) ↔ Along OutlivedByNone {} trace := by
  have hobjects : ∀ x ∈ trace, ObjectsSound x.2 := fun x hx =>
    (Run.invariant (fun _ _ _ hs hst => Accounted.step hs hst) h accounted_empty x hx).objectsSound
  rw [and_iff_left hobjects]
  refine h.along_iff_of_keep (I := fun s => Accounted s ∧ AllRegistered s) ?_ ?_
    ⟨accounted_empty, by simp [AllRegistered]⟩
  · exact fun s op t hs houtlived hst =>
      ⟨hs.1.step hst, allRegistered_step hs.1 hs.2 houtlived hst⟩
  · exact fun s op t hs hst => pidsUnique_iff hs.1 hs.2 hst

/-- A process is spawned, and exits. -/
def shortRun : List (Op × SpawnedProcesses) :=
  [(.spawnProcess 100, (spawnProcess {} 100).2),
    (.exit ⟨0, 0⟩, exitProcess (spawnProcess {} 100).2 ⟨0, 0⟩)]

theorem shortRun_sound :
    Along PidsUnique {} shortRun ∧ ∀ x ∈ shortRun, ObjectsSound x.2 := by
  have hrun : Run Step {} shortRun :=
    .cons (.spawnProcess {} 100) (.cons (.exit List.mem_cons_self) (.nil _))
  have houtlived : Along OutlivedByNone {} shortRun := ⟨nofun, trivial, trivial⟩
  exact (virtualPids_unique_iff hrun).mpr houtlived

/-! ### A process that outlives the counter -/

/-- The first process is waited for and registered, and so many were spawned after it. -/
def FirstOutlives (n : ℕ) (s : SpawnedProcesses) : Prop :=
  s.processes.length = n + 1 ∧ ⟨0, 0⟩ ∈ s.threads ∧ s.spawnedProcesses.lookup 0 = some 0

/-- One more process is spawned and exits. -/
lemma firstOutlives_succ {n : ℕ} (hn : n + 1 < 2 ^ 31) {s : SpawnedProcesses} (hs : Accounted s)
    (h : FirstOutlives n s) : ∃ trace, Run Step s trace ∧ FirstOutlives (n + 1) (endOf s trace) := by
  obtain ⟨hlength, hthread, hlookup⟩ := h
  have hnext : (0 : ℤ) ≠ s.nextVirtualPid := by
    rw [hs.next, hlength]
    omega
  refine ⟨[(.spawnProcess 1, (spawnProcess s 1).2),
    (.exit ⟨s.nextVirtualPid, s.processes.length⟩,
      exitProcess (spawnProcess s 1).2 ⟨s.nextVirtualPid, s.processes.length⟩)],
    .cons (.spawnProcess s 1) (.cons (.exit List.mem_cons_self) (.nil _)), ?_, ?_, ?_⟩
  · simp [endOf, exitProcess, spawnProcess, hlength]
  · refine (List.mem_erase_of_ne ?_).mpr (List.mem_cons_of_mem _ hthread)
    exact fun heq => hnext (congrArg ExitThread.virtualPid heq)
  · -- the entry of the other process is made and erased
    calc _ = ((s.spawnedProcesses.insert s.nextVirtualPid s.processes.length).lookup 0) :=
        AList.lookup_erase_ne hnext
      _ = s.spawnedProcesses.lookup 0 := AList.lookup_insert_ne hnext
      _ = some 0 := hlookup

/-- The first process may outlive as many others as there are pids. -/
lemma exists_firstOutlives {n : ℕ} (hn : n < 2 ^ 31) :
    ∃ trace, Run Step {} trace ∧ FirstOutlives n (endOf {} trace) := by
  induction n with
  | zero =>
      exact ⟨[(.spawnProcess 1, (spawnProcess {} 1).2)], .cons (.spawnProcess {} 1) (.nil _), rfl,
        List.mem_cons_self, AList.lookup_insert _⟩
  | succ n ih =>
      obtain ⟨trace, hrun, hfirst⟩ := ih (Nat.lt_of_succ_lt hn)
      have hs := hrun.invariant_endOf (fun _ _ _ hs hst => Accounted.step hs hst) accounted_empty
      obtain ⟨trace', hrun', hfirst'⟩ := firstOutlives_succ hn hs hfirst
      exact ⟨trace ++ trace', hrun.append hrun', by rwa [endOf_append]⟩

/-- The process after these is given the pid of the first, which is still registered. -/
theorem pid_given_twice :
    ¬ ∀ trace : List (Op × SpawnedProcesses), Run Step {} trace →
      Along PidsUnique {} trace ∧ ∀ x ∈ trace, ObjectsSound x.2 := by
  intro h
  obtain ⟨trace, hrun, hlength, -, hlookup⟩ := exists_firstOutlives (n := 2 ^ 31 - 1) (by omega)
  have hs := hrun.invariant_endOf (fun _ _ _ hs hst => Accounted.step hs hst) accounted_empty
  have hlast : Run Step (endOf {} trace) [(.spawnProcess 1, (spawnProcess (endOf {} trace) 1).2)] :=
    .cons (.spawnProcess _ 1) (.nil _)
  have hunique := ((along_append _ _ _).mp (h _ (hrun.append hlast)).1).2.1
  have hnext : (endOf {} trace).nextVirtualPid = 0 := by
    rw [hs.next, hlength]
    rfl
  have hnone : (endOf {} trace).spawnedProcesses.lookup (endOf {} trace).nextVirtualPid = none :=
    hunique
  rw [hnext, hlookup] at hnone
  cases hnone

end Neutralino.os

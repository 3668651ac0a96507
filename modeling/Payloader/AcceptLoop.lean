-- How TcpServer.cpp hands a connection to its thread: `start_accept` stores
-- each descriptor in the one variable `ClientSocket` and gives the new thread
-- its address, and the thread reads the descriptor there in its first step.
import Payloader.Machines

set_option autoImplicit false

namespace payloader.accept_loop

open payloader.machines

/-! ## The steps -/

/-- The next call of `start_accept`. -/
inductive Acceptor where
  | accept
  | pthread_create
  deriving DecidableEq

/-- The variable of the loop, and the descriptor that each thread has read, the
oldest thread first. A thread that has not run yet has read none. -/
structure Server where
  ClientSocket : Int
  acceptor : Acceptor
  threads : List (Option Int)

/-- The variable is not initialised. -/
def Server.init (ClientSocket : Int) : Server where
  ClientSocket := ClientSocket
  acceptor := .accept
  threads := []

inductive Action where
  | accept (fd : Int)
  | pthread_create
  | thread_function01 (i : Nat)

/-- What a step does. The one of a thread is `Client = *(int*)clientSockect`. -/
def step (s : Server) : Action → Option Server
  | .accept fd =>
    if s.acceptor = .accept then some { s with ClientSocket := fd, acceptor := .pthread_create }
    else none
  | .pthread_create =>
    if s.acceptor = .pthread_create then
      some { s with threads := s.threads ++ [none], acceptor := .accept }
    else none
  | .thread_function01 i =>
    if s.threads[i]? = some none then
      some { s with threads := s.threads.set i (some s.ClientSocket) }
    else none

def Step (s : Server) (a : Action) (s' : Server) : Prop := step s a = some s'

/-- The descriptors that were accepted, in order. -/
def accepted : List Action → List Int
  | [] => []
  | .accept fd :: log => fd :: accepted log
  | _ :: log => accepted log

/-- The descriptors that the threads serve. -/
def served (s : Server) : List Int := s.threads.filterMap id

/-- No descriptor is served by more threads than it was accepted times, and
once every thread runs it is served by as many. -/
structure ServedOnce (log : List Action) (s : Server) : Prop where
  shared : ∀ fd, (served s).count fd ≤ (accepted log).count fd
  all : s.acceptor = .accept → none ∉ s.threads →
    ∀ fd, (served s).count fd = (accepted log).count fd

@[simp] theorem accepted_append (log more : List Action) :
    accepted (log ++ more) = accepted log ++ accepted more := by
  induction log using accepted.induct with
  | case1 => rfl
  | case2 fd log ih => simp [accepted, ih]
  | case3 a log hne ih =>
    cases a with
    | accept fd => exact absurd rfl (hne fd)
    | pthread_create => exact ih
    | thread_function01 i => exact ih

/-! ## One hand-off at a time -/

/-- A connection is accepted only when every thread has read its own. -/
def Patient (s : Server) : Action → Prop
  | .accept _ => none ∉ s.threads
  | _ => True

def PatientStep (s : Server) (a : Action) (s' : Server) : Prop := Step s a s' ∧ Patient s a

/-- Where a hand-off stands, when the threads have read `fds`: there is none,
the next descriptor is in the variable, or the newest thread has still to read
it there. The last argument is what was accepted. -/
inductive HandOff (s : Server) (fds : List Int) : List Int → Prop
  | idle (ha : s.acceptor = .accept) (ht : s.threads = fds.map some) : HandOff s fds fds
  | stored (ha : s.acceptor = .pthread_create) (ht : s.threads = fds.map some) :
      HandOff s fds (fds ++ [s.ClientSocket])
  | created (ha : s.acceptor = .accept) (ht : s.threads = fds.map some ++ [none]) :
      HandOff s fds (fds ++ [s.ClientSocket])

variable {s s' s'' : Server} {a : Action} {log more : List Action} {fds taken : List Int} {fd : Int}

theorem started (fds : List Int) (i : Nat) : (fds.map some)[i]? ≠ some none := by
  rw [List.getElem?_map]
  intro h
  obtain ⟨fd, -, hfd⟩ := Option.map_eq_some_iff.mp h
  cases hfd

theorem none_notMem_started (fds : List Int) : none ∉ fds.map some := by
  intro h
  obtain ⟨i, hi⟩ := List.mem_iff_getElem?.mp h
  exact started fds i hi

theorem HandOff.next (hI : HandOff s fds taken) (h : PatientStep s a s') :
    ∃ fds', HandOff s' fds' (taken ++ accepted [a]) := by
  obtain ⟨h, hpatient⟩ := h
  unfold Step at h
  cases a with
  | accept fd =>
    simp only [step, Option.ite_none_right_eq_some, Option.some.injEq] at h
    obtain ⟨hplace, rfl⟩ := h
    cases hI with
    | idle ha ht => exact ⟨fds, .stored rfl ht⟩
    | stored ha ht => cases ha.symm.trans hplace
    | created ha ht =>
      have hwaits : none ∈ s.threads := by
        rw [ht]
        exact List.mem_append_right _ (List.mem_singleton_self none)
      exact absurd hwaits hpatient
  | pthread_create =>
    simp only [step, Option.ite_none_right_eq_some, Option.some.injEq] at h
    obtain ⟨hplace, rfl⟩ := h
    simp only [accepted, List.append_nil]
    cases hI with
    | idle ha ht => cases ha.symm.trans hplace
    | stored ha ht => exact ⟨fds, .created rfl (by simp only [ht])⟩
    | created ha ht => cases ha.symm.trans hplace
  | thread_function01 i =>
    simp only [step, Option.ite_none_right_eq_some, Option.some.injEq] at h
    obtain ⟨hwaits, rfl⟩ := h
    simp only [accepted, List.append_nil]
    cases hI with
    | idle ha ht => exact absurd (ht ▸ hwaits) (started fds i)
    | stored ha ht => exact absurd (ht ▸ hwaits) (started fds i)
    | created ha ht =>
      -- the thread that runs now is the newest one
      have hlast : i = (fds.map some).length := by
        rw [ht] at hwaits
        rcases Nat.lt_or_ge i (fds.map some).length with hlt | hge
        · rw [List.getElem?_append_left hlt] at hwaits
          exact absurd hwaits (started fds i)
        · have hbound := (List.getElem?_eq_some_iff.mp hwaits).1
          rw [List.length_append, List.length_singleton] at hbound
          omega
      refine ⟨fds ++ [s.ClientSocket], .idle ha ?_⟩
      simp only
      rw [ht, hlast, List.set_append_right _ _ (Nat.le_refl _), Nat.sub_self, List.map_append]
      rfl

theorem HandOff.served_sublist (h : HandOff s fds taken) : served s = fds ∧ fds.Sublist taken := by
  have hmap : (fds.map some).filterMap id = fds := by
    rw [List.filterMap_map]
    exact List.filterMap_some
  unfold served
  cases h with
  | idle ha ht => exact ⟨by rw [ht, hmap], List.Sublist.refl _⟩
  | stored ha ht => exact ⟨by rw [ht, hmap], List.sublist_append_left _ _⟩
  | created ha ht =>
    refine ⟨?_, List.sublist_append_left _ _⟩
    rw [ht, List.filterMap_append, hmap]
    exact List.append_nil fds

theorem HandOff.all (h : HandOff s fds taken) (ha : s.acceptor = .accept)
    (hrun : none ∉ s.threads) : fds = taken := by
  cases h with
  | idle => rfl
  | stored hs => cases hs.symm.trans ha
  | created _ ht =>
    rw [ht] at hrun
    exact absurd (List.mem_append_right _ (List.mem_singleton_self none)) hrun

theorem handOff_reached {slot : Int} (h : Reaches PatientStep (Server.init slot) log s) :
    ∃ fds, HandOff s fds (accepted log) := by
  refine h.invariant (fun log s => ∃ fds, HandOff s fds (accepted log)) ⟨[], .idle rfl rfl⟩ ?_
  rintro log s a s' ⟨fds, hI⟩ hs
  rw [accepted_append]
  exact hI.next hs

/-- While no connection is accepted over one that is still to be read, every
connection has one thread. -/
theorem patient_accepts_are_served_once {slot : Int}
    (h : Reaches PatientStep (Server.init slot) log s) : ServedOnce log s := by
  obtain ⟨fds, hI⟩ := handOff_reached h
  obtain ⟨hserved, hsub⟩ := hI.served_sublist
  constructor
  · intro fd
    rw [hserved]
    exact hsub.count_le fd
  · intro ha hrun fd
    rw [hserved, hI.all ha hrun]

/-- A hand-off from the accept to the read of the new thread. -/
theorem hand_off {slot : Int} (h : Reaches PatientStep (Server.init slot) log s)
    (ha : s.acceptor = .accept) (hrun : none ∉ s.threads) (fd : Int) :
    Reaches PatientStep (Server.init slot)
      (log ++ [.accept fd] ++ [.pthread_create] ++ [.thread_function01 s.threads.length])
      { s with ClientSocket := fd, threads := s.threads ++ [some fd] } := by
  have haccept : PatientStep s (.accept fd)
      { s with ClientSocket := fd, acceptor := .pthread_create } := ⟨if_pos ha, hrun⟩
  have hcreate : PatientStep { s with ClientSocket := fd, acceptor := .pthread_create }
      .pthread_create { s with ClientSocket := fd, threads := s.threads ++ [none] } := by
    refine ⟨?_, trivial⟩
    unfold Step step
    rw [if_pos rfl, ha]
  have hread : PatientStep { s with ClientSocket := fd, threads := s.threads ++ [none] }
      (.thread_function01 s.threads.length)
      { s with ClientSocket := fd, threads := s.threads ++ [some fd] } := by
    refine ⟨(if_pos List.getElem?_concat_length).trans ?_, trivial⟩
    rw [List.set_append_right _ _ (Nat.le_refl _), Nat.sub_self]
    rfl
  exact ((h.next haccept).next hcreate).next hread

/-- Connections that come one after the other, each when the thread of the one
before it runs. -/
theorem one_at_a_time {slot : Int} (h : Reaches PatientStep (Server.init slot) log s)
    (ha : s.acceptor = .accept) (ht : s.threads = (accepted log).map some) (fds : List Int) :
    ∃ log' s', Reaches PatientStep (Server.init slot) log' s' ∧
      accepted log' = accepted log ++ fds ∧ s'.threads = (accepted log').map some := by
  induction fds generalizing log s with
  | nil => exact ⟨log, s, h, (List.append_nil _).symm, ht⟩
  | cons fd fds ih =>
    have hnext := hand_off h ha (ht ▸ none_notMem_started _) fd
    have hlog : accepted (log ++ [.accept fd] ++ [.pthread_create] ++
        [.thread_function01 s.threads.length]) = accepted log ++ [fd] := by
      rw [accepted_append, accepted_append, accepted_append]
      exact (List.append_nil _).trans (List.append_nil _)
    obtain ⟨log', s', hrun, hlog', ht'⟩ := ih hnext ha (by rw [hlog, List.map_append, ht]; rfl)
    rw [hlog, List.append_assoc] at hlog'
    exact ⟨log', s', hrun, hlog', ht'⟩

/-- Three connections, the last one with the descriptor of the first again. -/
theorem three_connections_are_served :
    ∃ log s, Reaches PatientStep (Server.init 0) log s ∧ accepted log = [4, 5, 4] ∧
      served s = [4, 5, 4] ∧ ServedOnce log s := by
  have hstart : Reaches PatientStep (Server.init 0) [] (Server.init 0) := .start
  obtain ⟨log, s, hrun, hlog, ht⟩ := one_at_a_time hstart rfl rfl [4, 5, 4]
  refine ⟨log, s, hrun, hlog, ?_, patient_accepts_are_served_once hrun⟩
  unfold served
  rw [ht, hlog]
  rfl

/-! ## Two hand-offs at a time -/

/-- A step of a thread writes what the variable holds. -/
theorem count_set {threads : List (Option Int)} {i : Nat} {x : Int} (h : threads[i]? = some none)
    (hne : x ≠ fd) : ((threads.set i (some x)).filterMap id).count fd =
      (threads.filterMap id).count fd := by
  induction threads generalizing i with
  | nil => rfl
  | cons t threads ih =>
    cases i with
    | zero =>
      cases h
      exact List.count_cons_of_ne hne
    | succ i =>
      have hrest := ih h
      cases t with
      | none => exact hrest
      | some y =>
        change (y :: (threads.set i (some x)).filterMap id).count fd =
          (y :: threads.filterMap id).count fd
        rw [List.count_cons, List.count_cons, hrest]

/-- Once the variable does not hold a descriptor that no one accepts again, no
more threads read it. -/
theorem count_stays (h : Reaches Step s more s') (hother : s.ClientSocket ≠ fd)
    (hnew : fd ∉ accepted more) : (served s').count fd = (served s).count fd := by
  have hI := h.invariant (fun more s' => fd ∉ accepted more →
    s'.ClientSocket ≠ fd ∧ (served s').count fd = (served s).count fd) (fun _ => ⟨hother, rfl⟩) ?_
  · exact (hI hnew).2
  intro more s1 a s2 hI hs hnew
  rw [accepted_append, List.mem_append, not_or] at hnew
  obtain ⟨hslot, hcount⟩ := hI hnew.1
  unfold Step at hs
  cases a with
  | accept fd' =>
    simp only [step, Option.ite_none_right_eq_some, Option.some.injEq] at hs
    obtain ⟨-, rfl⟩ := hs
    have hne : fd ≠ fd' := fun heq => hnew.2 (List.mem_singleton.mpr heq)
    exact ⟨hne.symm, hcount⟩
  | pthread_create =>
    simp only [step, Option.ite_none_right_eq_some, Option.some.injEq] at hs
    obtain ⟨-, rfl⟩ := hs
    refine ⟨hslot, ?_⟩
    rw [← hcount]
    unfold served
    simp only
    rw [List.filterMap_append]
    exact congrArg _ (List.append_nil _)
  | thread_function01 i =>
    simp only [step, Option.ite_none_right_eq_some, Option.some.injEq] at hs
    obtain ⟨hwaits, rfl⟩ := hs
    exact ⟨hslot, (count_set hwaits hslot).trans hcount⟩

/-- A connection that is accepted too early leaves the one before it with no
thread, whatever comes after. -/
theorem an_early_accept_leaves_one_unserved {slot : Int}
    (h : Reaches PatientStep (Server.init slot) log s) (hs : Step s (.accept fd) s')
    (hearly : ¬ Patient s (.accept fd)) (hmore : Reaches Step s' more s'')
    (hnew : s.ClientSocket ∉ fd :: accepted more) :
    (served s'').count s.ClientSocket <
      (accepted (log ++ .accept fd :: more)).count s.ClientSocket := by
  rw [List.mem_cons, not_or] at hnew
  obtain ⟨hne, hnew⟩ := hnew
  unfold Step at hs
  simp only [step, Option.ite_none_right_eq_some, Option.some.injEq] at hs
  obtain ⟨hplace, rfl⟩ := hs
  rw [count_stays hmore (Ne.symm hne) hnew, accepted_append, List.count_append]
  refine Nat.lt_of_lt_of_le ?_ (Nat.le_add_right _ _)
  obtain ⟨fds, hI⟩ := handOff_reached h
  have hserved : served { s with ClientSocket := fd, acceptor := .pthread_create } = fds :=
    hI.served_sublist.1
  rw [hserved]
  generalize accepted log = taken at hI
  cases hI with
  | idle ha ht =>
    have hpatient : none ∉ s.threads := ht ▸ none_notMem_started fds
    exact absurd hpatient hearly
  | stored ha ht => cases ha.symm.trans hplace
  | created ha ht =>
    rw [List.count_append, List.count_singleton_self]
    exact Nat.lt_succ_self _

/-- Two connections come in before the first thread runs: both threads serve
the second one. -/
theorem two_threads_share_a_connection :
    ¬ ∀ (slot : Int) (log : List Action) (s : Server), Reaches Step (Server.init slot) log s →
      ServedOnce log s := by
  intro h
  have hrun : Reaches Step (Server.init 0) _ _ := Reaches.start.steps (fun _ _ _ hs => hs)
    [.accept 4, .pthread_create, .accept 5, .pthread_create, .thread_function01 0,
      .thread_function01 1] rfl
  have htwice := (h _ _ _ hrun).shared 5
  revert htwice
  decide

end payloader.accept_loop

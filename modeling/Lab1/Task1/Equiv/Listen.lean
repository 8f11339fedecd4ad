import Lab1.Library.Handoff
import Lab1.Task1.Listen

/-!
# Connections and their threads

Each thread gets a pointer to the one `ThreadParams_St` of the loop, so that the sockets are handed
over through one cell (`Refines`), and nothing keeps the loop from storing the next one before a
thread has read its own.  The connections are served once each exactly in the runs in which this
does not happen; in all others two threads serve one connection, which each of them may delete, and
some connection is served by none (`listen_iff`).
-/

namespace Lab1.Task1.SocketServer.Listening

variable {κ : Type*}

/-! ### The property -/

def Event.accepted? : Event κ → Option κ
  | accept clntSock => some clntSock
  | _ => none

/-- The connections, in the order in which they are accepted. -/
def acceptedSocks (events : List (Event κ)) : List κ := events.filterMap Event.accepted?

/-- When the loop stores a socket, all threads that have begun have read theirs. -/
def InTime (s : Listening κ) (events : List (Event κ)) : Prop :=
  Throughout step (fun s e => e = .storeSock → none ∉ s.tasks) s events

/-- The loop is not in the middle of a turn. -/
def BetweenTurns (s : Listening κ) : Prop :=
  match s.pc with
  | .accepting => True
  | .left => True
  | _ => False

/-! ### One event -/

/-- Each event, where it can take place. -/
inductive Steps (s : Listening κ) : Event κ → Listening κ → Prop
  | accept {clntSock} (h : s.pc = .accepting) :
    Steps s (.accept clntSock) { s with pc := .accepted clntSock }
  | acceptThrows (h : s.pc = .accepting) : Steps s .acceptThrows { s with pc := .left }
  | storeServer {clntSock} (h : s.pc = .accepted clntSock) :
    Steps s .storeServer { s with
      pc := .serverStored clntSock
      threadParams := { s.threadParams with socketServerObj := true } }
  | storeSock {clntSock} (h : s.pc = .serverStored clntSock) :
    Steps s .storeSock { s with
      pc := .sockStored
      threadParams := { s.threadParams with sock := some clntSock } }
  | begin (h : s.pc = .sockStored) :
    Steps s .begin { s with pc := .accepting, tasks := s.tasks ++ [none] }
  | executeThread {i} (h : s.tasks[i]? = some none) :
    Steps s (.executeThread i) { s with tasks := s.tasks.set i s.threadParams.sock }

theorem steps_of_step {s t : Listening κ} {e : Event κ} {u : Unit}
    (h : step s e = .ok (t, u)) : Steps s e t := by
  cases e with
  | accept clntSock =>
    rw [step] at h
    split at h
    · next hpc =>
      obtain ⟨rfl, _⟩ := ok_pair_inj h
      exact .accept hpc
    · cases h
  | acceptThrows =>
    rw [step] at h
    split at h
    · next hpc =>
      obtain ⟨rfl, _⟩ := ok_pair_inj h
      exact .acceptThrows hpc
    · cases h
  | storeServer =>
    rw [step] at h
    split at h
    · next hpc =>
      obtain ⟨rfl, _⟩ := ok_pair_inj h
      exact .storeServer hpc
    · cases h
  | storeSock =>
    rw [step] at h
    split at h
    · next hpc =>
      obtain ⟨rfl, _⟩ := ok_pair_inj h
      exact .storeSock hpc
    · cases h
  | begin =>
    rw [step] at h
    split at h
    · next hpc =>
      obtain ⟨rfl, _⟩ := ok_pair_inj h
      exact .begin hpc
    · cases h
  | executeThread i =>
    obtain ⟨s', hthread, hpure⟩ := bind_eq_ok.mp h
    obtain ⟨rfl, _⟩ := ok_pair_inj hpure
    rw [executeThread] at hthread
    split at hthread
    · cases hthread
    · next hnone _ =>
      obtain rfl := Except.ok.inj hthread
      exact .executeThread hnone
    · cases hthread

/-! ### The cell -/

/-- A connection that was accepted and whose socket is not stored yet. -/
def pending : ListenPc κ → List κ
  | .accepting => []
  | .accepted clntSock => [clntSock]
  | .serverStored clntSock => [clntSock]
  | .sockStored => []
  | .left => []

/-- A thread whose socket is stored and that has not begun yet. -/
def coming : ListenPc κ → List (Option κ)
  | .accepting => []
  | .accepted _ => []
  | .serverStored _ => []
  | .sockStored => [none]
  | .left => []

/-- The sockets accepted so far are handed over through the cell. -/
structure Refines (s : Listening κ) (socks : List κ) (c : Handoff.State κ) : Prop where
  cell : c.cell = s.threadParams.sock
  gave : c.gave ++ pending s.pc = socks
  took : c.took = s.tasks ++ coming s.pc

variable {s t : Listening κ} {socks : List κ} {c : Handoff.State κ} {e : Event κ}

/-- Only two of the events do something to the cell: a socket is put there, and a thread reads. -/
theorem Refines.step (h : Refines s socks c) (hstep : Steps s e t) :
    ∃ acts d outs, exec Handoff.step c acts = .ok (d, outs) ∧
      Refines t (socks ++ e.accepted?.toList) d ∧
      (Handoff.Prompt c acts ↔ (e = .storeSock → none ∉ s.tasks)) := by
  obtain ⟨hcell, hgave, htook⟩ := h
  have hidle : Handoff.Prompt c [] := trivial
  cases hstep with
  | accept hpc =>
    rw [hpc] at hgave htook
    refine ⟨[], c, [], rfl, ⟨hcell, ?_, htook⟩, iff_of_true hidle (by rintro ⟨⟩)⟩
    simp [← hgave, pending, Event.accepted?]
  | acceptThrows hpc =>
    rw [hpc] at hgave htook
    refine ⟨[], c, [], rfl, ⟨hcell, ?_, htook⟩, iff_of_true hidle (by rintro ⟨⟩)⟩
    simp [← hgave, pending, Event.accepted?]
  | storeServer hpc =>
    rw [hpc] at hgave htook
    refine ⟨[], c, [], rfl, ⟨hcell, ?_, htook⟩, iff_of_true hidle (by rintro ⟨⟩)⟩
    simp [← hgave, pending, Event.accepted?]
  | @storeSock clntSock hpc =>
    rw [hpc] at hgave htook
    have htasks : c.took = s.tasks := htook.trans (List.append_nil _)
    -- with the socket comes the thread that is to read it
    refine ⟨[.give clntSock], ⟨some clntSock, c.gave ++ [clntSock], c.took ++ [none]⟩, [()], rfl,
      ⟨rfl, ?_, ?_⟩, ?_⟩
    · simp [← hgave, pending, Event.accepted?]
    · rw [htasks]
      rfl
    · rw [← htasks]
      constructor
      · intro hprompt _
        exact hprompt.1 clntSock rfl
      · intro hnone
        exact ⟨fun _ _ => hnone rfl, fun _ _ _ => trivial⟩
  | begin hpc =>
    rw [hpc] at hgave htook
    refine ⟨[], c, [], rfl, ⟨hcell, ?_, ?_⟩, iff_of_true hidle (by rintro ⟨⟩)⟩
    · simp [← hgave, pending, Event.accepted?]
    · simp [htook, coming]
  | @executeThread i hnone =>
    obtain ⟨hlt, _⟩ := List.getElem?_eq_some_iff.mp hnone
    -- a thread that has begun stands before the one that is to begin
    have hwaits : c.took[i]? = some none := by
      rw [htook, List.getElem?_append_left hlt, hnone]
    refine ⟨[.take i], { c with took := c.took.set i c.cell }, [()], ?_, ⟨hcell, ?_, ?_⟩, ?_⟩
    · refine exec_singleton_eq_ok.mpr ⟨(), ?_, rfl⟩
      rw [Handoff.step, hwaits]
    · simp [← hgave, Event.accepted?]
    · show c.took.set i c.cell = s.tasks.set i s.threadParams.sock ++ coming s.pc
      rw [htook, hcell, List.set_append_left _ _ hlt]
    · have htake : Handoff.Prompt c [.take i] := ⟨by rintro _ ⟨⟩, fun _ _ _ => trivial⟩
      exact iff_of_true htake (by rintro ⟨⟩)

/-- The whole of a run. -/
theorem Refines.exec (h : Refines s socks c) {events : List (Event κ)} {outs : List Unit}
    (hrun : exec Listening.step s events = .ok (t, outs)) :
    ∃ acts d outs', Lab1.exec Handoff.step c acts = .ok (d, outs') ∧
      Refines t (socks ++ acceptedSocks events) d ∧ (Handoff.Prompt c acts ↔ InTime s events) := by
  induction events generalizing s socks c outs with
  | nil =>
    cases hrun
    exact ⟨[], c, [], rfl, by rwa [acceptedSocks, List.filterMap_nil, List.append_nil], Iff.rfl⟩
  | cons e events ih =>
    obtain ⟨s', u, outs', hfirst, hrest, rfl⟩ := exec_cons_eq_ok.mp hrun
    obtain ⟨acts, c', outs₁, hacts, h', hprompt⟩ := h.step (steps_of_step hfirst)
    obtain ⟨acts', d, outs₂, hacts', hd, hprompt'⟩ := ih h' hrest
    refine ⟨acts ++ acts', d, outs₁ ++ outs₂,
      exec_append_eq_ok.mpr ⟨c', outs₁, outs₂, hacts, hacts', rfl⟩, ?_, ?_⟩
    · have hsocks : acceptedSocks (e :: events) = e.accepted?.toList ++ acceptedSocks events := by
        cases e <;> rfl
      rwa [hsocks, ← List.append_assoc]
    · rw [Handoff.Prompt, throughout_append_of_run hacts, InTime, throughout_cons_of_ok hfirst]
      exact and_congr hprompt hprompt'

/-! ### The connections -/

/-- **The loop.**  Connections that are all different are served by a thread each exactly if the
threads read their sockets in time; otherwise some connection has two threads, and another one
none. -/
theorem listen_iff [DecidableEq κ] {events : List (Event κ)} {outs : List Unit}
    (hrun : exec Listening.step start events = .ok (t, outs)) (hpc : t.BetweenTurns)
    (hread : none ∉ t.tasks) (hdiff : (acceptedSocks events).Nodup) :
    (t.tasks.Nodup ↔ InTime start events) ∧
      ((∀ clntSock ∈ acceptedSocks events, some clntSock ∈ t.tasks) ↔ InTime start events) ∧
      (InTime start events → t.tasks = (acceptedSocks events).map some) := by
  have hstart : Refines (start : Listening κ) [] Handoff.State.start := ⟨rfl, rfl, rfl⟩
  obtain ⟨acts, d, outs', hacts, ⟨_, hgave, htook⟩, hprompt⟩ := hstart.exec hrun
  have hidle : pending t.pc = [] ∧ coming t.pc = [] := by
    unfold BetweenTurns at hpc
    split at hpc
    · next h =>
      rw [h]
      exact ⟨rfl, rfl⟩
    · next h =>
      rw [h]
      exact ⟨rfl, rfl⟩
    · exact hpc.elim
  rw [hidle.1, List.append_nil, List.nil_append] at hgave
  rw [hidle.2, List.append_nil] at htook
  rw [← hgave] at hdiff ⊢
  rw [← htook] at hread ⊢
  rw [← hprompt]
  exact ⟨Handoff.nodup_iff_prompt hacts hread hdiff,
    Handoff.all_taken_iff_prompt hacts hread hdiff,
    fun h => Handoff.took_of_prompt h hacts hread⟩

/-- Two connections that come shortly after one another: the first thread reads the second
socket. -/
theorem listen_iff_two :
    ¬([some 2, some 2] : List (Option ℕ)).Nodup ∧
      ¬InTime (start : Listening ℕ) [.accept 1, .storeServer, .storeSock, .begin, .accept 2,
        .storeServer, .storeSock, .executeThread 0, .begin, .executeThread 1] := by
  have hrun : exec Listening.step start [.accept 1, .storeServer, .storeSock, .begin, .accept 2,
      .storeServer, .storeSock, .executeThread 0, .begin, .executeThread 1]
      = .ok (⟨.accepting, ⟨true, some 2⟩, [some 2, some 2]⟩, _) := rfl
  have hdup : ¬([some 2, some 2] : List (Option ℕ)).Nodup := by decide
  exact ⟨hdup, fun hin => hdup ((listen_iff hrun trivial (by decide) (by decide)).1.mpr hin)⟩

end Lab1.Task1.SocketServer.Listening

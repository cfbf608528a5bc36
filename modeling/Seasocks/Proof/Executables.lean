import Seasocks.Library.Program
import Seasocks.Server

/-!
# Functions posted to the server thread

Under every interleaving the posted functions are those called, the rest of the detached batch and
those pending, in the order in which their posts took the mutex; and a pending function keeps the
server from blocking, through the eventfd or through a write that is still to come.
-/

namespace Seasocks

open Relation

/-- From the swap to the return of `epoll_wait`. -/
def Phase.hasSwapped : Phase → Bool
  | .running | .calling | .checking | .waiting => true
  | _ => false

namespace Server

variable {Thread Executable : Type}

/-- The post that holds the mutex and has not been appended yet. -/
def holding (s : Server Thread Executable) : List (Post Thread Executable) :=
  match s.mutex with
  | some (.execute post) => [post]
  | _ => []

theorem holding_of_mutex {s : Server Thread Executable} {post : Post Thread Executable}
    (h : s.mutex = some (.execute post)) : s.holding = [post] := by
  simp [holding, h]

theorem holding_of_free {s : Server Thread Executable} (h : s.mutex = none) : s.holding = [] := by
  simp [holding, h]

theorem holding_of_runExecutables {s : Server Thread Executable}
    (h : s.mutex = some .runExecutables) : s.holding = [] := by
  simp [holding, h]

/-- What keeps a server with pending functions from blocking. -/
def Awake (s : Server Thread Executable) : Prop :=
  s.signalled = true ∨ ∀ post ∈ s.pendingExecutables, s.callers post.poster = .posted

/-- What holds in every reachable state. -/
structure Accounted (s : Server Thread Executable) : Prop where
  opened : s.listenSock = true ∨ s.phase ≠ .outside → s.eventFd ≠ none
  swapping : s.phase = .swapping → s.mutex = some .runExecutables
  batch : s.phase ≠ .running → s.phase ≠ .calling → s.copy = []
  conserved : s.executed ++ s.copy ++ s.pendingExecutables = s.posted
  ordered : s.posted ++ s.holding = s.locked
  awake : s.phase.hasSwapped = true → s.Awake

theorem accounted_fresh (eventFd : Option Nat) :
    (fresh eventFd : Server Thread Executable).Accounted := by
  constructor <;> simp [fresh, holding, Phase.hasSwapped]

theorem signalled_map_writeOne {s : Server Thread Executable} (h : s.eventFd ≠ none) :
    ({ s with eventFd := s.eventFd.map writeOne } : Server Thread Executable).signalled = true := by
  obtain ⟨count, hcount⟩ := Option.ne_none_iff_exists'.mp h
  simp only [signalled, hcount, Option.map_some, decide_eq_true_eq]
  unfold writeOne
  split <;> omega

/-! ### The server thread -/

namespace LoopStep

variable {s s' : Server Thread Executable}

theorem opened (h : LoopStep s s') (hs : s.Accounted) :
    s'.listenSock = true ∨ s'.phase ≠ .outside → s'.eventFd ≠ none := by
  have hopened := hs.opened
  cases h with
  | read events hphase => exact fun _ => by simp
  | startListening hphase heventFd => exact fun _ => heventFd
  | loop hphase hlistenSock => exact fun _ => hopened (.inl hlistenSock)
  | poll hphase hlistenSock => exact fun _ => hopened (.inl hlistenSock)
  | _ => exact fun _ => hopened (.inr (by simp_all))

theorem swapping (h : LoopStep s s') (hs : s.Accounted) (hphase : s'.phase = .swapping) :
    s'.mutex = some .runExecutables := by
  cases h with
  | lock => rfl
  | startListening => exact hs.swapping hphase
  | read => exact hs.swapping hphase
  | goOn | checked => simp_all only [reduceCtorEq, ite_eq_iff, and_false, or_self]
  | _ => exact absurd hphase (by simp)

theorem batch (h : LoopStep s s') (hs : s.Accounted) (hrunning : s'.phase ≠ .running)
    (hcalling : s'.phase ≠ .calling) : s'.copy = [] := by
  cases h with
  | batchDone hphase hcopy => exact hcopy
  | _ => first | exact hs.batch (by simp_all) (by simp_all) | simp_all

theorem conserved (h : LoopStep s s') (hs : s.Accounted) :
    s'.executed ++ s'.copy ++ s'.pendingExecutables = s'.posted := by
  have hconserved := hs.conserved
  cases h with
  | swap hphase =>
      have hcopy : s.copy = [] := hs.batch (by simp [hphase]) (by simp [hphase])
      simpa [hcopy] using hconserved
  | call post rest hphase hcopy => simpa [hcopy] using hconserved
  | _ => exact hconserved

theorem ordered (h : LoopStep s s') (hs : s.Accounted) : s'.posted ++ s'.holding = s'.locked := by
  have hordered := hs.ordered
  cases h with
  | lock hphase hmutex =>
      rw [holding_of_free hmutex] at hordered
      exact hordered
  | swap hphase =>
      rw [holding_of_runExecutables (hs.swapping hphase)] at hordered
      exact hordered
  | _ => exact hordered

theorem awake (h : LoopStep s s') (hs : s.Accounted) (hphase : s'.phase.hasSwapped = true) :
    s'.Awake := by
  cases h with
  | swap => exact .inr (by simp)
  | call post rest hbefore => exact hs.awake (by simp [hbefore, Phase.hasSwapped])
  | returned hbefore => exact hs.awake (by simp [hbefore, Phase.hasSwapped])
  | batchDone hbefore => exact hs.awake (by simp [hbefore, Phase.hasSwapped])
  | checked hbefore => exact hs.awake (by simp [hbefore, Phase.hasSwapped])
  | startListening => exact hs.awake hphase
  | goOn => cases hpolling : s.polling <;> simp [hpolling, Phase.hasSwapped] at hphase
  | _ => simp_all [Phase.hasSwapped]

theorem accounted (h : LoopStep s s') (hs : s.Accounted) : s'.Accounted :=
  ⟨h.opened hs, h.swapping hs, h.batch hs, h.conserved hs, h.ordered hs, h.awake hs⟩

end LoopStep

/-! ### Any thread -/

variable [DecidableEq Thread] {server : Thread} {s s' : Server Thread Executable}

/-- A thread that starts `execute` or `terminate` has no write to come. -/
theorem forall_posted_of_outside {callers : Thread → Caller} {thread : Thread} (caller : Caller)
    {posts : List (Post Thread Executable)} (hcaller : callers thread = .outside)
    (h : ∀ post ∈ posts, callers post.poster = .posted) :
    ∀ post ∈ posts, Function.update callers thread caller post.poster = .posted := by
  intro post hmem
  have hne : post.poster ≠ thread := by
    intro heq
    rw [← heq, h post hmem] at hcaller
    cases hcaller
  rw [Function.update_of_ne hne]
  exact h post hmem

theorem forall_posted_append {callers : Thread → Caller} {posts : List (Post Thread Executable)}
    {post : Post Thread Executable} (h : ∀ post ∈ posts, callers post.poster = .posted) :
    ∀ other ∈ posts ++ [post],
      Function.update callers post.poster .posted other.poster = .posted := by
  intro other hmem
  by_cases heq : other.poster = post.poster
  · rw [heq, Function.update_self]
  · rw [Function.update_of_ne heq]
    rcases List.mem_append.mp hmem with hmem | hmem
    · exact h other hmem
    · exact absurd (congrArg Post.poster (List.mem_singleton.mp hmem)) heq

theorem Step.accounted (h : Step server s s') (hs : s.Accounted) : s'.Accounted := by
  cases h with
  | lock post hcaller hmutex =>
      refine ⟨hs.opened, ?_, hs.batch, hs.conserved, ?_, ?_⟩
      · intro hphase
        rw [hs.swapping hphase] at hmutex
        cases hmutex
      · have hordered := hs.ordered
        rw [holding_of_free hmutex, List.append_nil] at hordered
        rw [holding_of_mutex rfl, hordered]
      · intro hphase
        exact (hs.awake hphase).imp_right (forall_posted_of_outside .locked hcaller.1)
  | append post hcaller hmutex =>
      refine ⟨hs.opened, ?_, hs.batch, ?_, ?_, ?_⟩
      · intro hphase
        rw [hs.swapping hphase] at hmutex
        cases hmutex
      · rw [← List.append_assoc, hs.conserved]
      · have hordered := hs.ordered
        rw [holding_of_mutex hmutex] at hordered
        rw [holding_of_free rfl, List.append_nil, hordered]
      · exact fun hphase => (hs.awake hphase).imp_right forall_posted_append
  | terminate thread hcaller =>
      refine ⟨hs.opened, hs.swapping, hs.batch, hs.conserved, hs.ordered, ?_⟩
      intro hphase
      exact (hs.awake hphase).imp_right (forall_posted_of_outside .terminating hcaller.1)
  | write thread hcaller =>
      refine ⟨?_, hs.swapping, hs.batch, hs.conserved, hs.ordered, ?_⟩
      · intro hopen
        simpa using hs.opened hopen
      · intro hphase
        have hopen : s.phase ≠ .outside := by
          intro hphase'
          rw [show s.phase = .outside from hphase'] at hphase
          cases hphase
        exact .inl (signalled_map_writeOne (hs.opened (.inr hopen)))
  | loop _ _ hloop => exact hloop.accounted hs

theorem reachable_accounted {eventFd : Option Nat}
    (h : ReflTransGen (Step server) (fresh eventFd) s) : s.Accounted :=
  Program.invariant_of_steps Accounted (fun _ _ hs hstep => hstep.accounted hs) h
    (accounted_fresh eventFd)

/-- Functions run at most once and in the order in which their posts took the mutex, none is lost,
and the server blocks on pending functions only if the thread of each is still to write. -/
theorem reachable_executables {eventFd : Option Nat}
    (h : ReflTransGen (Step server) (fresh eventFd) s) :
    s.executed <+: s.locked ∧ s.executed ++ s.copy ++ s.pendingExecutables = s.posted ∧
      (s.phase = .waiting → s.pendingExecutables ≠ [] →
        s.signalled = true ∨ ∀ post ∈ s.pendingExecutables, s.callers post.poster = .posted) := by
  have hs := reachable_accounted h
  refine ⟨?_, hs.conserved, fun hphase _ => hs.awake (by simp [hphase, Phase.hasSwapped])⟩
  rw [← hs.ordered, ← hs.conserved, List.append_assoc, List.append_assoc]
  exact List.prefix_append _ _

/-- The server has looked at an empty list and thread 1 posts to it before it blocks. -/
theorem reachable_executables_late :
    ∃ s : Server ℕ String, s.phase = .waiting ∧ s.pendingExecutables = [⟨1, "late"⟩] ∧
      s.eventFd = some 0 ∧ s.callers 1 = .posted ∧ s.executed <+: s.locked := by
  have hstart : ReflTransGen (Step 0) (fresh (some 0) : Server ℕ String) _ :=
    (((ReflTransGen.single (.loop _ _ rfl (.startListening _ rfl nofun))).tail
      (.loop _ _ rfl (.loop _ rfl rfl))).tail
      (.loop _ _ rfl (.goOn _ rfl rfl))).tail
      (.loop _ _ rfl (.lock _ rfl rfl))
  have hwaiting :=
    ((hstart.tail (.loop _ _ rfl (.swap _ rfl))).tail
      (.loop _ _ rfl (.batchDone _ rfl rfl))).tail
      (.loop _ _ rfl (.checked _ rfl))
  have hpost :=
    (hwaiting.tail (.lock _ ⟨1, "late"⟩ ⟨rfl, by decide⟩ rfl)).tail (.append _ ⟨1, "late"⟩ rfl rfl)
  obtain ⟨hexecuted, _, hawake⟩ := reachable_executables hpost
  rcases hawake rfl (by decide) with hsignalled | hposted
  · cases hsignalled
  · exact ⟨_, rfl, rfl, rfl, hposted ⟨1, "late"⟩ (by decide), hexecuted⟩

end Server

end Seasocks

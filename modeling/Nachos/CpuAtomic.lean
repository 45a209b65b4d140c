import Nachos.CpuFinish
import Nachos.CpuKernel

-- Every step of the CPU is one step of the kernel or none.
namespace Nachos.Cpu
open Monitor

variable {T L C S : Type} [DecidableEq T] [DecidableEq L] [DecidableEq C] [DecidableEq S] {c c' after : Cpu T L C S}
  {frame : Frame T L C S} {old new rest : List (Frame T L C S)}

-- What the kernel and the stacks keep of a step.
structure Advances (c : Cpu T L C S) (action : Option (Kernel.Action T L C)) (after : Cpu T L C S) : Prop where
  shaped : (∀ t, Shaped (c.stack t)) → ∀ t, Shaped (after.stack t)
  semaphores : ∀ s t, t ∈ (after.semaphore s).queue → t ∈ (c.semaphore s).queue ∨ insideOf (after.stack t) = .none
  inside : ∀ t, insideOf (after.stack t) = insideOf (c.stack t) ∨
    (action ≠ none ∧ t = c.currentThread ∧ (insideOf (after.stack t) = .finished → t ∈ finishedOf after.log))
  kernel : ∀ printed, match action with
    | none => after.kernel printed = c.kernel printed
    | some action => ∃ printed', Kernel.Steps (c.kernel printed) action (after.kernel printed')

-- A step that the kernel does not see.
theorem settled_advances (now : Settled (after.stack after.currentThread))
    (lock : after.lock = c.settled.lock) (condition : after.condition = c.settled.condition)
    (inside : ∀ t, insideOf (after.stack t) = insideOf (c.stack t))
    (asleep : ∀ t, insideOf (c.stack t) ≠ .none → after.asleep t = c.settled.asleep t)
    (semaphores : ∀ s t, t ∈ (after.semaphore s).queue → t ∈ (c.semaphore s).queue ∨ insideOf (after.stack t) = .none)
    (shaped : (∀ t, Shaped (c.stack t)) → ∀ t, Shaped (after.stack t)) : Advances c none after := by
  refine ⟨shaped,semaphores,fun t => .inl (inside t),?_⟩
  intro printed
  simp only [kernel,settled_same now,lock,condition,inside,Kernel.mk.injEq,true_and,and_true]
  funext t
  by_cases out : insideOf (c.stack t) = .none
  · simp [standing,out]
  · rw [asleep t out]

theorem quiet_advances (before : Settled (c.stack c.currentThread)) (now : Settled (after.stack after.currentThread))
    (lock : after.lock = c.lock) (condition : after.condition = c.condition)
    (inside : ∀ t, insideOf (after.stack t) = insideOf (c.stack t))
    (asleep : ∀ t, insideOf (c.stack t) ≠ .none → after.asleep t = c.asleep t)
    (semaphores : ∀ s t, t ∈ (after.semaphore s).queue → t ∈ (c.semaphore s).queue ∨ insideOf (after.stack t) = .none)
    (shaped : (∀ t, Shaped (c.stack t)) → ∀ t, Shaped (after.stack t)) : Advances c none after := by
  have same := settled_same before
  exact settled_advances now (by rw [same,lock]) (by rw [same,condition]) inside (by rwa [same]) semaphores shaped

-- The current thread's frames are replaced.
omit [DecidableEq L] [DecidableEq C] [DecidableEq S] in
theorem replaced_same {stack : T → List (Frame T L C S)} (f : List (Frame T L C S) → α)
    (frames : c.stack c.currentThread = old) (replaced : stack = Function.update c.stack c.currentThread new)
    (same : f new = f old) (t : T) : f (stack t) = f (c.stack t) := by
  by_cases self : t = c.currentThread
  · subst self
    rw [replaced,Function.update_self,frames,same]
  · rw [replaced,Function.update_of_ne self]

omit [DecidableEq L] [DecidableEq C] [DecidableEq S] in
theorem replaced_all {P : List (Frame T L C S) → Prop} (stack : c'.stack = Function.update c.stack c.currentThread new)
    (top : P new) (all : ∀ t, P (c.stack t)) (t : T) : P (c'.stack t) := by
  by_cases self : t = c.currentThread
  · subst self
    rwa [stack,Function.update_self]
  · rw [stack,Function.update_of_ne self]
    exact all t

-- A step that replaces them by others that say the same.
theorem framed_advances (frames : c.stack c.currentThread = old)
    (stack : c'.stack = Function.update c.stack c.currentThread new) (before : Settled old) (top : Settled (c'.stack c'.currentThread)) (lock : c'.lock = c.lock)
    (condition : c'.condition = c.condition) (inside : insideOf new = insideOf old)
    (sleeps : insideOf old ≠ .none → new.any Frame.sleeps = old.any Frame.sleeps)
    (status : ∀ t, insideOf (c.stack t) ≠ .none → (c'.status t = .BLOCKED ↔ c.status t = .BLOCKED))
    (semaphores : ∀ s t, t ∈ (c'.semaphore s).queue →
      t ∈ (c.semaphore s).queue ∨ (t = c.currentThread ∧ insideOf new = .none))
    (shaped : Shaped old → Shaped new) : Advances c none c' := by
  refine quiet_advances (frames ▸ before) top lock condition (replaced_same insideOf frames stack inside) ?_ ?_ ?_
  · intro t out
    have stays : (c'.stack t).any Frame.sleeps = (c.stack t).any Frame.sleeps := by
      by_cases self : t = c.currentThread
      · subst self
        rw [stack,Function.update_self,frames,sleeps (frames ▸ out)]
      · rw [stack,Function.update_of_ne self]
    simp only [asleep,stays,status t out]
  · intro s t queued
    refine (semaphores s t queued).imp_right ?_
    rintro ⟨rfl,none_⟩
    rw [stack,Function.update_self,none_]
  · exact fun all => replaced_all stack (shaped (frames ▸ all c.currentThread)) all

-- The thread runs on, and no lock, condition, semaphore or status changes.
theorem calm_advances (frames : c.stack c.currentThread = old) (thread : c'.currentThread = c.currentThread)
    (lock : c'.lock = c.lock) (condition : c'.condition = c.condition) (semaphore : c'.semaphore = c.semaphore)
    (status : c'.status = c.status) (stack : c'.stack = Function.update c.stack c.currentThread new) (before : Settled old)
    (now : Settled new) (inside : insideOf new = insideOf old) (sleeps : new.any Frame.sleeps = old.any Frame.sleeps)
    (shaped : Shaped old → Shaped new) : Advances c none c' := by
  refine framed_advances frames stack before ?_ lock condition inside (fun _ => sleeps) (fun t _ => by rw [status]) ?_ shaped
  · rwa [thread,stack,Function.update_self]
  · intro s t queued
    rw [semaphore] at queued
    exact .inl queued

-- Where the threads stand. A thread on the queue of a semaphore is inside nothing that
-- the kernel knows.
structure Placed (c : Cpu T L C S) : Prop where
  shaped : ∀ t, Shaped (c.stack t)
  fresh : ∀ t, c.status t = .JUST_CREATED → insideOf (c.stack t) = .none
  finished : ∀ t, insideOf (c.stack t) = .finished → t ∈ finishedOf c.log
  semaphores : ∀ s t, t ∈ (c.semaphore s).queue → insideOf (c.stack t) = .none

omit [DecidableEq L] [DecidableEq C] [DecidableEq S] in
theorem initial_placed (main : T) (initialValue : S → Int) : Placed (initial main initialValue : Cpu T L C S) := by
  refine ⟨fun _ => trivial,fun _ _ => rfl,?_,?_⟩
  · intro t inside
    cases inside
  · intro s t queued
    cases queued

theorem setLevel_advances (rest : List (Frame T L C S)) (frames : c.stack c.currentThread = old)
    (changed : c.setLevel now = .ok (middle,pushed)) (before : Settled old) (settled : Settled rest)
    (inside : insideOf rest = insideOf old) (sleeps : rest.any Frame.sleeps = old.any Frame.sleeps)
    (shaped : Shaped old → Shaped rest) :
    Advances c none {middle with stack := Function.update middle.stack c.currentThread (pushed ++ rest)} := by
  unfold setLevel at changed
  split at changed <;> cases changed
  split
  · exact calm_advances frames rfl rfl rfl rfl rfl rfl before (settled_cons (by simp) settled) inside sleeps
      fun all => ⟨trivial,settled,shaped all⟩
  · exact calm_advances frames rfl rfl rfl rfl rfl rfl before settled inside sleeps shaped

-- The CPU goes to another thread, or back to the same.
theorem runs_advances (orderly : Orderly c) (placed : Placed c) (frames : c.stack c.currentThread = old)
    (lock : c'.lock = c.lock) (condition : c'.condition = c.condition) (semaphore : c'.semaphore = c.semaphore)
    (stack : c'.stack = Function.update c.stack c.currentThread new) (before : Settled old) (now : Settled new)
    (inside : insideOf new = insideOf old) (sleeps : new.any Frame.sleeps = old.any Frame.sleeps)
    (shaped : Shaped old → Shaped new) (status : ∀ t, c'.status t = .BLOCKED ↔ c.status t = .BLOCKED) :
    Advances c none c' := by
  refine framed_advances frames stack before ?_ lock condition inside (fun _ => sleeps) (fun t _ => status t) ?_ shaped
  · by_cases same : c'.currentThread = c.currentThread
    · rwa [same,stack,Function.update_self]
    · rw [stack,Function.update_of_ne same]
      exact clear_settled (placed.shaped _) (orderly.others _ same).1
  · intro s t queued
    rw [semaphore] at queued
    exact .inl queued

-- A V wakes a thread that is inside no operation of the kernel.
theorem v_advances (placed : Placed c) (frames : c.stack c.currentThread = old) (thread : c'.currentThread = c.currentThread)
    (lock : c'.lock = c.lock) (condition : c'.condition = c.condition)
    (semaphore : c'.semaphore = Function.update c.semaphore s (c.semaphore s).v.1)
    (status : c'.status = (c.readyToRun (c.semaphore s).v.2).status)
    (stack : c'.stack = Function.update c.stack c.currentThread new) (before : Settled old) (now : Settled new) (inside : insideOf new = insideOf old)
    (sleeps : new.any Frame.sleeps = old.any Frame.sleeps) (shaped : Shaped old → Shaped new) : Advances c none c' := by
  refine framed_advances frames stack before ?_ lock condition inside (fun _ => sleeps) ?_ ?_ shaped
  · rwa [thread,stack,Function.update_self]
  · intro t out
    rw [status]
    rcases v_pops (c.semaphore s) with ⟨none_,_⟩ | ⟨u,some_,queued⟩
    · rw [none_]
      rfl
    · have woken := placed.semaphores s u (by simp [queued])
      have other : t ≠ u := by
        rintro rfl
        exact out woken
      simp [some_,readyToRun,other]
  · intro r t queued
    refine .inl ?_
    by_cases same : r = s
    · subst same
      rw [semaphore,Function.update_self] at queued
      rcases v_pops (c.semaphore r) with ⟨_,stays⟩ | ⟨u,_,popped⟩
      · rwa [stays] at queued
      · rw [popped]
        exact List.mem_cons_of_mem u queued
    · rwa [semaphore,Function.update_of_ne same] at queued

-- A step of the current thread that the kernel sees.
theorem point_advances {action : Kernel.Action T L C} (new : List (Frame T L C S)) (semaphore : c'.semaphore = c.semaphore)
    (stack : c'.stack = Function.update c.stack c.currentThread new) (shaped : (∀ t, Shaped (c.stack t)) → Shaped new)
    (ends : insideOf new = .finished → c.currentThread ∈ finishedOf c'.log)
    (seen : ∀ printed, ∃ printed', Kernel.Steps (c.kernel printed) action (c'.kernel printed')) :
    Advances c (some action) c' := by
  refine ⟨fun all => replaced_all stack (shaped all) all,?_,?_,seen⟩
  · intro s t queued
    rw [semaphore] at queued
    exact .inl queued
  · intro t
    by_cases self : t = c.currentThread
    · subst self
      rw [stack,Function.update_self]
      exact .inr ⟨by simp,rfl,ends⟩
    · rw [stack,Function.update_of_ne self]
      exact .inl rfl

theorem yield_advances (rest : List (Frame T L C S)) (orderly : Orderly c) (placed : Placed c)
    (conserved : Conserved c.view bed) (running : c.status c.currentThread = .RUNNING)
    (frames : c.stack c.currentThread = old) (before : Settled old) (settled : Settled rest) (inside : insideOf rest = insideOf old) (sleeps : rest.any Frame.sleeps = old.any Frame.sleeps)
    (shaped : Shaped old → Shaped rest) :
    Advances c none {(c.enter .yield).1 with
      stack := Function.update (c.enter .yield).1.stack c.currentThread ((c.enter .yield).2 ++ rest)} := by
  obtain ⟨now,last,same,sleeping⟩ := ending_frames .yield c.level settled (shaped (frames ▸ placed.shaped _)) (by simp)
  simp only [enter,body]
  split
  · exact calm_advances frames rfl rfl rfl rfl rfl rfl before now (same.trans inside) (sleeping.trans sleeps)
      fun _ => last
  · rename_i next later ready
    refine runs_advances orderly placed frames rfl rfl rfl rfl before (settled_cons (by simp) now) (same.trans inside)
      (sleeping.trans sleeps) (fun _ => ⟨trivial,now,last⟩) ?_
    intro t
    have listed : next ∈ c.readyList := by simp [ready]
    have waits : c.status next = .READY := (conserved.ready next).mp listed
    by_cases one : t = next
    · subst one
      simp [run,readyToRun,waits]
    · by_cases two : t = c.currentThread
      · subst two
        simp [run,readyToRun,one,running]
      · simp [run,readyToRun,one,two]

theorem called_advances (orderly : Orderly c) (running : c.status c.currentThread = .RUNNING)
    (empty : c.stack c.currentThread = []) (operation : Operation T L C S) (seen : operation.kernelCall = some what)
    (other : operation ≠ .yield) : Advances c (some (.call c.currentThread what)) (c.called operation) := by
  obtain ⟨semaphore,stack,ends⟩ := called_fields (c := c) operation seen other
  refine point_advances (c.enter operation).2 semaphore ?_ (fun _ => called_shaped operation) ends ?_
  · simp only [called,stack]
  · intro printed
    obtain ⟨printed',equal⟩ := called_kernel orderly running empty printed operation what seen other
    obtain ⟨ready,outside⟩ := own_ready empty printed
    exact ⟨printed',equal ▸ .call ready outside⟩

-- A forked thread has a stack of its own, and is inside nothing.
theorem fork_advances (placed : Placed c) (running : c.status c.currentThread = .RUNNING)
    (empty : c.stack c.currentThread = []) (fresh : c.status t = .JUST_CREATED) :
    Advances c none (c.called (.fork t)) := by
  have other : t ≠ c.currentThread := by
    rintro rfl
    rw [running] at fresh
    cases fresh
  have settled : Settled (ending (.fork t) c.level : List (Frame T L C S)) := by simp [Settled,ending]
  have stack : ∀ u, u ≠ t → u ≠ c.currentThread → (c.called (.fork t)).stack u = c.stack u := by
    intro u one two
    simp [called,enter,body,readyToRun,one,two]
  have forked : (c.called (.fork t)).stack t = [.root] := by
    simp [called,enter,body,readyToRun,other]
  have self : (c.called (.fork t)).stack c.currentThread = ending (.fork t) c.level := by
    simp [called,enter,body]
  have inside : ∀ u, insideOf ((c.called (.fork t)).stack u) = insideOf (c.stack u) := by
    intro u
    by_cases one : u = t
    · rw [one,forked,placed.fresh t fresh]
      rfl
    · by_cases two : u = c.currentThread
      · rw [two,self,empty]
        rfl
      · rw [stack u one two]
  refine quiet_advances (empty ▸ settled_nil) (self.symm ▸ settled) rfl rfl inside ?_ (fun _ _ queued => .inl queued) ?_
  · intro u out
    have one : u ≠ t := by
      rintro rfl
      exact out (placed.fresh u fresh)
    have two : u ≠ c.currentThread := by
      rintro rfl
      rw [empty] at out
      exact out rfl
    rw [asleep,asleep,stack u one two]
    simp [called,enter,body,readyToRun,one]
  · intro all u
    by_cases one : u = t
    · rw [one,forked]
      exact ⟨trivial,settled_nil,trivial⟩
    · by_cases two : u = c.currentThread
      · rw [two,self]
        exact ⟨trivial,by simp [Settled],trivial,settled_nil,trivial⟩
      · rw [stack u one two]
        exact all u

-- The kernel's own Yield does nothing.
theorem Advances.yields (quiet : Advances c none c') (empty : c.stack c.currentThread = []) :
    Advances c (some (.call c.currentThread .yield)) c' := by
  refine ⟨quiet.shaped,quiet.semaphores,fun t => .inl ?_,?_⟩
  · exact (quiet.inside t).resolve_right fun moved => moved.1 rfl
  · intro printed
    obtain ⟨ready,outside⟩ := own_ready empty printed
    refine ⟨printed,?_⟩
    rw [quiet.kernel printed]
    exact .call ready outside

theorem own_advances (orderly : Orderly c) (placed : Placed c) (conserved : Conserved c.view bed)
    (empty : c.stack c.currentThread = []) (executed : c.own choice = .ok (middle,pushed)) :
    Advances c (choice.point c.currentThread) {middle with stack := Function.update middle.stack c.currentThread pushed} := by
  have running : c.status c.currentThread = .RUNNING := (conserved.up (v := c.view) (by simp [view,empty,Clear])).1
  have stays : Advances c none {c with stack := Function.update c.stack c.currentThread []} :=
    calm_advances empty rfl rfl rfl rfl rfl rfl settled_nil settled_nil rfl rfl id
  cases choice with
  | call operation =>
    cases operation with
    | p s =>
      cases executed
      refine calm_advances empty rfl rfl rfl rfl rfl rfl settled_nil ?_ rfl rfl fun _ => called_shaped (.p s)
      simp [Settled,ending]
    | v s =>
      cases executed
      refine v_advances (s := s) placed empty ?_ ?_ ?_ ?_ ?_ ?_ settled_nil ?_ ?_ ?_ fun _ => called_shaped (c := c) (.v s)
      case refine_7 => simp [Settled,enter,body,ending]
      all_goals
        simp only [enter,body,Semaphore.v]
        cases (c.semaphore s).queue <;> rfl
    | acquire l =>
      cases executed
      exact called_advances orderly running empty (.acquire l) rfl (by simp)
    | release l =>
      cases executed
      exact called_advances orderly running empty (.release l) rfl (by simp)
    | wait d conditionLock =>
      cases executed
      exact called_advances orderly running empty (.wait d conditionLock) rfl (by simp)
    | signal d conditionLock =>
      cases executed
      exact called_advances orderly running empty (.signal d conditionLock) rfl (by simp)
    | finish =>
      cases executed
      exact called_advances orderly running empty .finish rfl (by simp)
    | fork t =>
      simp only [own] at executed
      split at executed <;> cases executed
      · rename_i fresh
        exact fork_advances placed running empty fresh
      · exact stays
    | yield =>
      cases executed
      have yielded := yield_advances [] orderly placed conserved running empty settled_nil settled_nil rfl rfl id
      simp only [List.append_nil] at yielded
      exact yielded.yields empty
  | setLevel now =>
    have result := setLevel_advances [] empty executed settled_nil settled_nil rfl rfl id
    simp only [List.append_nil] at result
    exact result
  | oneTick =>
    cases executed
    split
    · exact calm_advances empty rfl rfl rfl rfl rfl rfl settled_nil (by simp [Settled]) rfl rfl
        fun _ => ⟨trivial,settled_nil,trivial⟩
    · exact stays
  | fire | go =>
    cases executed
    exact stays

-- The Release in Wait has taken effect where Wait began.
theorem nested_release_advances (placed : Placed c) (frames : c.stack c.currentThread = .call (.release l) :: rest) :
    Advances c none {(c.enter (.release l)).1 with
      stack := Function.update (c.enter (.release l)).1.stack c.currentThread ((c.enter (.release l)).2 ++ rest)} := by
  have shaped := placed.shaped c.currentThread
  rw [frames] at shaped
  obtain ⟨_,settled,shape⟩ := shaped
  obtain ⟨now,last,inside,sleeps⟩ := ending_frames (.release l) c.level settled shape (by simp)
  have held : c.settled = (c.body (.release l)).1 := by simp only [Cpu.settled,frames]
  have woken : c.settled.stack = c.stack ∧ (c.enter (.release l)).1.stack = c.stack ∧
      (c.enter (.release l)).1.currentThread = c.currentThread ∧ (c.enter (.release l)).1.semaphore = c.semaphore ∧
      (c.enter (.release l)).1.lock = c.settled.lock ∧ (c.enter (.release l)).1.condition = c.settled.condition ∧
      (c.enter (.release l)).1.status = c.settled.status := by
    rw [held]
    simp only [enter,body]
    obtain ⟨lock,thread,output⟩ := (c.lock l).release c.currentThread
    cases thread <;> exact ⟨rfl,rfl,rfl,rfl,rfl,rfl,rfl⟩
  obtain ⟨below,stack,thread,semaphore,lock,condition,status⟩ := woken
  have replaced : Function.update (c.enter (.release l)).1.stack c.currentThread ((c.enter (.release l)).2 ++ rest) =
      Function.update c.stack c.currentThread (ending (.release l) c.level ++ rest) := by rw [stack]; rfl
  refine settled_advances ?_ lock condition (replaced_same insideOf frames replaced inside) ?_ ?_ (replaced_all replaced last)
  · dsimp only
    rw [thread,Function.update_self]
    exact now
  · intro t _
    have stays := replaced_same (List.any · Frame.sleeps) frames replaced sleeps t
    simp only [asleep,status,below,stays]
  · intro s t queued
    rw [show _ = c.semaphore from semaphore] at queued
    exact .inl queued

theorem test_advances (placed : Placed c) (frames : c.stack c.currentThread = .test s :: rest)
    (executed : c.exec choice (.test s) = .ok (middle,pushed)) :
    Advances c none {middle with stack := Function.update middle.stack c.currentThread (pushed ++ rest)} := by
  have shaped := placed.shaped c.currentThread
  rw [frames] at shaped
  obtain ⟨none_,settled,shape⟩ := shaped
  have before : Settled (.test s :: rest) := settled_cons (by simp) settled
  simp only [exec] at executed
  cases executed
  refine framed_advances frames rfl before ?_ rfl rfl ?_ (fun out => absurd none_ out) (fun _ _ => Iff.rfl) ?_ ?_
  · simp only [Function.update_self]
    split
    · exact settled_cons (by simp) before
    · exact settled
  · split <;> rfl
  · intro r t queued
    by_cases one : r = s
    · subst one
      simp only [Function.update_self,Semaphore.p] at queued ⊢
      split at queued
      · rename_i empty
        simp only [empty,if_true]
        refine (List.mem_append.mp queued).imp_right ?_
        intro self
        exact ⟨List.mem_singleton.mp self,none_⟩
      · exact .inl queued
    · simp only [Function.update_of_ne one] at queued
      exact .inl queued
  · intro _
    split
    · exact ⟨none_,before,none_,settled,shape⟩
    · exact shape

-- A thread about to sleep is asleep to the kernel.
theorem sleep_advances (placed : Placed c) (frames : c.stack c.currentThread = .sleep reason :: rest)
    (executed : c.exec choice (.sleep reason) = .ok (middle,pushed)) :
    Advances c none {middle with stack := Function.update middle.stack c.currentThread (pushed ++ rest)} := by
  have shaped := placed.shaped c.currentThread
  rw [frames] at shaped
  obtain ⟨fits,settled,shape⟩ := shaped
  simp only [exec] at executed
  split at executed <;> cases executed
  refine quiet_advances (frames ▸ settled_cons (by simp) settled) ?_ rfl rfl ?_ ?_ (fun _ _ queued => .inl queued) ?_
  · simpa using settled_cons (by simp) settled
  · intro t
    by_cases same : t = c.currentThread
    · subst same
      simp only [Function.update_self,frames]
      rfl
    · simp [same]
  · intro t _
    by_cases same : t = c.currentThread
    · subst same
      simp [asleep,frames,Frame.sleeps]
    · simp [asleep,same]
  · intro all t
    by_cases same : t = c.currentThread
    · subst same
      simpa using ⟨fits,settled,shape⟩
    · simpa [same] using all t

-- The CPU comes back to a thread that had given it up.
theorem switched_advances (orderly : Orderly c) (placed : Placed c) (conserved : Conserved c.view bed)
    (frames : c.stack c.currentThread = .switched reason :: rest)
    (executed : c.exec choice (.switched reason) = .ok (middle,pushed)) :
    Advances c ((Frame.switched reason).point c.currentThread) {middle with
      stack := Function.update middle.stack c.currentThread (pushed ++ rest)} := by
  have tidy := orderly.current
  have shaped := placed.shaped c.currentThread
  have finished := placed.finished c.currentThread
  rw [frames] at shaped tidy finished
  obtain ⟨fits,settled,shape⟩ := shaped
  have clear : Clear (c.view.stack c.view.currentThread) := by
    simp only [view,frames]
    exact clear_cons.mpr ⟨rfl,tidy.1⟩
  obtain ⟨running,_,alive⟩ := conserved.up clear
  have before : Settled (.switched reason :: rest) := settled_cons (by simp) settled
  have awake : (.switched reason :: rest).any Frame.sleeps = false := clear_asleep (by simpa only [view,frames] using clear)
  -- Only threadToBeDestroyed and the log change.
  obtain ⟨lock,condition,semaphore,status,stack,thread,rfl⟩ : middle.lock = c.lock ∧ middle.condition = c.condition ∧
      middle.semaphore = c.semaphore ∧ middle.status = c.status ∧ middle.stack = c.stack ∧
      middle.currentThread = c.currentThread ∧ pushed = [] := by
    simp only [exec] at executed
    split at executed
    · cases executed
      exact ⟨rfl,rfl,rfl,rfl,rfl,rfl,rfl⟩
    · split at executed <;> cases executed
      exact ⟨rfl,rfl,rfl,rfl,rfl,rfl,rfl⟩
  have calm : insideOf rest = insideOf (.switched reason :: rest) → Advances c none {middle with
      stack := Function.update middle.stack c.currentThread ([] ++ rest)} := by
    intro inside
    exact calm_advances frames thread lock condition semaphore status (by rw [stack]; rfl) before settled inside rfl
      fun all => all.2.2
  cases reason with
  | yields => exact calm rfl
  | finishes => exact absurd (finished rfl) alive
  | waits bed =>
    cases bed with
    | condition d => exact calm rfl
    | semaphore s => exact calm rfl
    | lock l =>
      have entering : (insideOf (c.stack c.currentThread)).entering = some l := by
        rw [frames]
        simp only [insideOf,Frame.inside]
        split <;> rfl
      have leaves : insideOf rest = .none := fits
      refine point_advances rest semaphore (by rw [stack]; rfl) (fun _ => shape) ?_ ?_
      · rw [leaves]
        intro ends
        cases ends
      · intro printed
        have reads := kernel_reads (frames ▸ before) printed
        have ready := awake_ready frames before running awake printed
        refine ⟨((c.kernel printed).return_ c.currentThread).printed,?_⟩
        have back : Reads {middle with stack := Function.update middle.stack c.currentThread ([] ++ rest)}
            ((c.kernel printed).return_ c.currentThread) :=
          reads.return_ ready lock condition status (by rw [stack]; rfl) leaves
        have returned := back.settled (by simpa [thread] using settled)
        rw [← returned]
        exact .returns ready entering

theorem nested_acquire_advances (orderly : Orderly c) (placed : Placed c) (conserved : Conserved c.view bed)
    (frames : c.stack c.currentThread = .call (.acquire l) :: rest) :
    Advances c (some (.resume c.currentThread)) {(c.enter (.acquire l)).1 with
      stack := Function.update (c.enter (.acquire l)).1.stack c.currentThread ((c.enter (.acquire l)).2 ++ rest)} := by
  have tidy := orderly.current
  have shaped := placed.shaped c.currentThread
  rw [frames] at shaped tidy
  obtain ⟨⟨⟨d,waits⟩,none_⟩,settled,shape⟩ := shaped
  have clear : Clear (c.view.stack c.view.currentThread) := by
    simp only [view,frames]
    exact clear_cons.mpr ⟨rfl,tidy.1 rfl⟩
  have running := (conserved.up clear).1
  have before : Settled (.call (.acquire l) :: rest) := settled_cons (by simp) settled
  have awake : (.call (.acquire l) :: rest).any Frame.sleeps = false := clear_asleep (by simpa only [view,frames] using clear)
  have outside : insideOf (c.stack c.currentThread) = .wait d l := by
    rw [frames]
    simp only [insideOf,Frame.inside,waits]
  have enters : insideOf (.sleep (.waits (.lock l)) :: (ending (.acquire l) c.level ++ rest)) = .reacquire d l := by
    simp only [insideOf,Frame.inside,ending,List.cons_append,List.nil_append,List.drop_succ_cons,List.drop_zero,waits]
  obtain ⟨now,last,ends,_⟩ := ending_frames (.acquire l) c.level settled shape fun _ _ => none_
  rw [none_] at ends
  refine point_advances ((c.enter (.acquire l)).2 ++ rest) rfl rfl ?_ ?_ ?_
  · intro _
    simp only [enter,body]
    split
    · exact ⟨ends,now,last⟩
    · exact last
  · simp only [enter,body]
    split
    · intro finished
      simp only [List.cons_append,List.nil_append,enters] at finished
      cases finished
    · intro finished
      simp only [List.nil_append,ends] at finished
      cases finished
  · intro printed
    refine ⟨printed,?_⟩
    rw [← acquire_kernel rest (.reacquire d l) frames before running awake settled shape none_ enters (by simp) printed]
    exact .reacquires (awake_ready frames before running awake printed) outside

theorem exec_advances {frame : Frame T L C S} (orderly : Orderly c) (placed : Placed c) (conserved : Conserved c.view bed)
    (frames : c.stack c.currentThread = frame :: rest) (executed : c.exec choice frame = .ok (middle,pushed)) :
    Advances c (frame.point c.currentThread) {middle with
      stack := Function.update middle.stack c.currentThread (pushed ++ rest)} := by
  have shaped := placed.shaped c.currentThread
  have tidy := orderly.current
  rw [frames] at shaped tidy
  obtain ⟨fits,settled,shape⟩ := shaped
  cases frame with
  | call operation =>
    cases operation with
    | acquire l =>
      cases executed
      exact nested_acquire_advances orderly placed conserved frames
    | release l =>
      cases executed
      exact nested_release_advances placed frames
    | yield =>
      cases executed
      have clear : Clear (c.view.stack c.view.currentThread) := by
        simp only [view,frames]
        exact clear_cons.mpr ⟨rfl,tidy.1 rfl⟩
      exact yield_advances rest orderly placed conserved (conserved.up clear).1 frames (settled_cons (by simp) settled) settled
        rfl rfl fun all => all.2.2
    | p | v | wait | signal | fork | finish => cases fits
  | restore oldLevel =>
    exact setLevel_advances rest frames executed (settled_cons (by simp) settled) settled rfl rfl fun all => all.2.2
  | root => exact setLevel_advances rest frames executed (settled_cons (by simp) settled) settled rfl rfl fun all => all.2.2
  | ret operation entry =>
    cases executed
    exact calm_advances frames rfl rfl rfl rfl rfl rfl (settled_cons (by simp) settled) settled rfl rfl fun all => all.2.2
  | test s => exact test_advances placed frames executed
  | sleep reason => exact sleep_advances placed frames executed
  | sleepLoop reason =>
    have before : Settled (.sleepLoop reason :: rest) := settled_cons (by simp) settled
    simp only [exec] at executed
    split at executed <;> cases executed
    · exact calm_advances frames rfl rfl rfl rfl rfl rfl before (settled_cons (by simp) before) rfl rfl
        fun all => ⟨trivial,before,all⟩
    · rename_i next later ready
      have listed : next ∈ c.readyList := by simp [ready]
      have waits : c.status next = .READY := (conserved.ready next).mp listed
      refine runs_advances orderly placed frames rfl rfl rfl rfl before (settled_cons (by simp) settled) rfl rfl
        id ?_
      intro t
      by_cases same : t = next
      · subst same
        simp [run,waits]
      · simp [run,same]
  | switched reason => exact switched_advances orderly placed conserved frames executed
  | tick =>
    cases executed
    exact calm_advances frames rfl rfl rfl rfl rfl rfl (settled_cons (by simp) settled) (settled_cons (by simp) settled) rfl rfl
      fun all => ⟨trivial,all.2⟩
  | ticking =>
    have before : Settled (.ticking :: rest) := settled_cons (by simp) settled
    simp only [exec] at executed
    split at executed
    · cases executed
    · split at executed <;> cases executed
      · exact calm_advances frames rfl rfl rfl rfl rfl rfl before before rfl rfl id
      · split
        · exact calm_advances frames rfl rfl rfl rfl rfl rfl before (settled_cons (by simp) settled) rfl rfl
            fun all => ⟨rfl,all.2⟩
        · exact calm_advances frames rfl rfl rfl rfl rfl rfl before settled rfl rfl fun all => all.2.2
  | idle =>
    have before : Settled (.idle :: rest) := settled_cons (by simp) settled
    simp only [exec] at executed
    split at executed
    · cases executed
    · split at executed <;> cases executed
      · exact calm_advances frames rfl rfl rfl rfl rfl rfl before (settled_cons (by simp) settled) rfl rfl
          fun all => ⟨trivial,all.2⟩
      · exact calm_advances frames rfl rfl rfl rfl rfl rfl before before rfl rfl id
  | idling =>
    have before : Settled (.idling :: rest) := settled_cons (by simp) settled
    simp only [exec] at executed
    split at executed
    · cases executed
    · split at executed <;> cases executed
      · exact calm_advances frames rfl rfl rfl rfl rfl rfl before before rfl rfl id
      · exact calm_advances frames rfl rfl rfl rfl rfl rfl before settled rfl rfl fun all => all.2.2

-- Handlers run where no thread is about to sleep.
omit [DecidableEq T] [DecidableEq L] [DecidableEq C] [DecidableEq S] in
theorem handled_settled (orderly : Orderly c) (placed : Placed c) (inside : c.inHandler = true) :
    Settled (c.stack c.currentThread) := by
  have awake := orderly.handled inside
  have shaped := placed.shaped c.currentThread
  cases frames : c.stack c.currentThread with
  | nil => exact settled_nil
  | cons top rest =>
    rw [frames] at awake shaped
    refine settled_cons ?_ shaped.2.1
    rintro l rfl
    obtain ⟨⟨d,below,rfl⟩,_⟩ := shaped.1
    exact awake (.waits (.condition d)) (by simp)

-- Nothing that the kernel shows has changed.
theorem same_advances (settled : Settled (c.stack c.currentThread)) (stack : c'.stack = c.stack)
    (thread : c'.currentThread = c.currentThread) (lock : c'.lock = c.lock) (condition : c'.condition = c.condition)
    (semaphore : c'.semaphore = c.semaphore) (status : c'.status = c.status) : Advances c none c' :=
  calm_advances rfl thread lock condition semaphore status (by rw [stack,Function.update_eq_self]) settled settled rfl rfl id

-- A handler does Vs.
theorem handler_advances {frame : Frame T L C S} {later : List (Frame T L C S)} (orderly : Orderly c) (placed : Placed c)
    (inside : c.inHandler = true) (handles : frame.Handles) (executed : c.exec choice frame = .ok (middle,pushed)) :
    Advances c none {middle with handler := later} := by
  have settled := handled_settled orderly placed inside
  cases frame with
  | call operation =>
    cases operation with
    | v s =>
      cases executed
      refine v_advances (s := s) placed rfl ?_ ?_ ?_ ?_ ?_ ?_ settled settled rfl rfl id
      all_goals
        simp only [Semaphore.v,Function.update_eq_self]
        cases (c.semaphore s).queue <;> rfl
    | p | acquire | release | wait | signal | fork | yield | finish => cases handles
  | restore oldLevel =>
    simp only [exec,setLevel] at executed
    split at executed <;> cases executed
    exact same_advances settled rfl rfl rfl rfl rfl rfl
  | ret operation entry =>
    cases executed
    exact same_advances settled rfl rfl rfl rfl rfl rfl
  | test | sleep | sleepLoop | switched | root | tick | ticking | idle | idling => cases handles

theorem step_advances (leveled : Leveled c) (orderly : Orderly c) (placed : Placed c) (conserved : Conserved c.view bed)
    (stepped : c.step choice = .ok after) : Advances c (c.point choice) after := by
  unfold step at stepped
  split at stepped
  · rename_i halted
    cases stepped
    rw [show c.point choice = none by simp [point,halted]]
    exact ⟨id,fun _ _ queued => .inl queued,fun _ => .inl rfl,fun _ => rfl⟩
  · rename_i going
    split at stepped
    · rename_i inside
      rw [show c.point choice = none by simp [point,inside]]
      split at stepped
      · cases stepped
        exact same_advances (handled_settled orderly placed inside) rfl rfl rfl rfl rfl rfl
      · rename_i frame rest handler
        obtain ⟨⟨middle,pushed⟩,executed,result⟩ := bind_ok stepped
        cases result
        exact handler_advances orderly placed inside ((leveled.handling inside).2 frame (by simp [handler])) executed
    · rename_i outside
      split at stepped
      · rename_i empty
        obtain ⟨⟨middle,pushed⟩,executed,result⟩ := bind_ok stepped
        cases result
        rw [show c.point choice = choice.point c.currentThread by simp [point,going,outside,empty]]
        exact own_advances orderly placed conserved empty executed
      · rename_i frame rest frames
        obtain ⟨⟨middle,pushed⟩,executed,result⟩ := bind_ok stepped
        cases result
        rw [show c.point choice = frame.point c.currentThread by simp [point,going,outside,frames]]
        exact exec_advances orderly placed conserved frames executed

theorem turn_finished {v w : View T L C S} (turn : Turn v w) (finished : t ∈ v.finished) : t ∈ w.finished := by
  cases turn with
  | still | joins | wakes | forks | sleeps | runs | yields => exact finished
  | finishes => exact List.mem_cons_of_mem _ finished

-- The kernel takes a step only where the current thread is awake.
omit [DecidableEq T] [DecidableEq L] [DecidableEq C] [DecidableEq S] in
theorem point_awake (orderly : Orderly c) (conserved : Conserved c.view bed) (seen : c.point choice ≠ none) :
    c.status c.currentThread = .RUNNING ∧ bed c.currentThread = none := by
  have tidy := orderly.current
  have clear : Clear (c.view.stack c.view.currentThread) := by
    change Clear (c.stack c.currentThread)
    simp only [point] at seen
    split at seen
    · exact absurd rfl seen
    · cases frames : c.stack c.currentThread with
      | nil => simp [Clear]
      | cons frame rest =>
        rw [frames] at tidy seen
        cases frame with
        | switched reason => exact clear_cons.mpr ⟨rfl,tidy.1⟩
        | call operation =>
          cases operation with
          | acquire l => exact clear_cons.mpr ⟨rfl,tidy.1 rfl⟩
          | p | v | release | wait | signal | fork | yield | finish => exact absurd rfl seen
        | restore | ret | test | sleep | sleepLoop | root | tick | ticking | idle | idling => exact absurd rfl seen
  obtain ⟨running,up,_⟩ := conserved.up clear
  exact ⟨running,up⟩

theorem step_created (leveled : Leveled c) (orderly : Orderly c) (stepped : c.step choice = .ok after)
    (fresh : after.status t = .JUST_CREATED) : c.status t = .JUST_CREATED := by
  rcases (step_turn leveled orderly stepped).2 with turn | same
  · by_contra old
    exact (turn_created turn t).1 old fresh
  · rwa [show after.status = c.status from congrArg View.status same] at fresh

theorem step_placed (leveled : Leveled c) (orderly : Orderly c) (placed : Placed c) (conserved : Conserved c.view bed)
    (stepped : c.step choice = .ok after) : Placed after := by
  have advances := step_advances leveled orderly placed conserved stepped
  obtain ⟨_,turned⟩ := step_turn leveled orderly stepped
  have kept : ∀ t, t ∈ finishedOf c.log → t ∈ finishedOf after.log := by
    intro t finished
    rcases turned with turn | same
    · exact turn_finished turn finished
    · rwa [show finishedOf after.log = finishedOf c.log from congrArg View.finished same]
  refine ⟨advances.shaped placed.shaped,?_,?_,?_⟩
  · intro t fresh
    rcases advances.inside t with same | ⟨seen,rfl,_⟩
    · rw [same]
      exact placed.fresh t (step_created leveled orderly stepped fresh)
    · have running := (point_awake orderly conserved seen).1
      rw [step_created leveled orderly stepped fresh] at running
      cases running
  · intro t ended
    rcases advances.inside t with same | ⟨_,rfl,ends⟩
    · exact kept t (placed.finished t (same ▸ ended))
    · exact ends ended
  · intro s t queued
    rcases advances.semaphores s t queued with earlier | out
    · rcases advances.inside t with same | ⟨seen,rfl,_⟩
      · rw [same]
        exact placed.semaphores s t earlier
      · have up := (point_awake orderly conserved seen).2
        have lies : bed c.currentThread = some (.semaphore s) := (conserved.queued (.semaphore s) _).mp earlier
        rw [up] at lies
        cases lies
    · exact out

theorem reached_placed (reached : Reached main initialValue c) : Placed c := by
  induction reached with
  | initial => exact initial_placed _ _
  | step prior stepped ih =>
    obtain ⟨bed,conserved⟩ := reached_conserved prior
    exact step_placed (reached_leveled prior) (reached_orderly prior) ih conserved stepped

theorem run_append {k middle : Kernel T L C} (one : k.run history first = some (newer,middle))
    (two : middle.run newer second = some result) : k.run history (first ++ second) = some result := by
  induction first generalizing k history with
  | nil =>
    cases one
    exact two
  | cons action later ih =>
    obtain ⟨next,stepped,rest⟩ := Option.bind_eq_some_iff.mp one
    simp only [List.cons_append,Kernel.run,stepped,Option.bind_eq_bind,Option.bind_some]
    exact ih rest

-- A step of the CPU is the step of the kernel that its point is, or none.
theorem point_run (reached : Reached main initialValue c) (stepped : c.step choice = .ok after)
    (history : List (Kernel.Event T L C)) (printed : List (Message T)) :
    ∃ newer printed', Kernel.run (c.kernel printed) history (c.point choice).toList = some (newer,after.kernel printed') := by
  obtain ⟨bed,conserved⟩ := reached_conserved reached
  have advances := step_advances (reached_leveled reached) (reached_orderly reached) (reached_placed reached) conserved stepped
  have kernel := advances.kernel printed
  cases seen : c.point choice with
  | none =>
    rw [seen] at kernel
    exact ⟨history,printed,by rw [kernel]; rfl⟩
  | some action =>
    rw [seen] at kernel
    obtain ⟨printed',steps⟩ := kernel
    refine ⟨(c.kernel printed).events action ++ history,printed',?_⟩
    simp only [Option.toList,Kernel.run,Kernel.step_complete steps,Option.bind_eq_bind,Option.bind_some]

-- Every state of the CPU shows a state that the kernel reaches.
theorem reached_runs (reached : Reached main initialValue c) :
    ∃ history printed, Kernel.Runs history (c.kernel printed) := by
  induction reached with
  | initial => exact ⟨[],[],.initial⟩
  | step prior stepped ih =>
    obtain ⟨history,printed,path⟩ := ih
    obtain ⟨newer,told,ran⟩ := point_run prior stepped history printed
    exact ⟨newer,told,Kernel.run_sound _ path ran⟩

-- Locks and conditions on the CPU, with interrupts, ticks and context switches at any
-- point where interrupts are on, do what the kernel of whole operations does.
theorem kernel_refined (reached : Reached main initialValue c) (ran : c.steps choices = .ok after)
    (history : List (Kernel.Event T L C)) (printed : List (Message T)) :
    ∃ newer printed', Kernel.run (c.kernel printed) history (c.points choices) = some (newer,after.kernel printed') := by
  induction choices generalizing c history printed with
  | nil =>
    cases ran
    exact ⟨history,printed,rfl⟩
  | cons choice later ih =>
    obtain ⟨middle,stepped,rest⟩ := bind_ok ran
    obtain ⟨newer,told,one⟩ := point_run reached stepped history printed
    obtain ⟨newest,said,others⟩ := ih (reached.step stepped) rest newer told
    refine ⟨newest,said,run_append one ?_⟩
    simpa only [stepped] using others

-- Thread `false` is switched out by a tick while it has the lock, and thread `true` goes
-- to sleep in Acquire.
def contended : List (Choice Bool Unit Unit Unit) :=
  Choice.call (.fork true) :: List.replicate 4 Choice.go ++ Choice.call (.acquire ()) :: List.replicate 4 Choice.go ++
    [Choice.oneTick,Choice.go,Choice.fire [] true] ++ List.replicate 6 Choice.go ++ Choice.call (.acquire ()) :: List.replicate 7 Choice.go

def handedOver : List (Choice Bool Unit Unit Unit) :=
  contended ++ Choice.call (.release ()) :: List.replicate 4 Choice.go ++ Choice.call .yield :: List.replicate 9 Choice.go

theorem kernel_refined_handed_over : ∃ c, (initial false fun _ => 0).steps handedOver = .ok c ∧
    (c.settled.lock ()).ownerThread = some true ∧
    ∃ history printed, Kernel.run .initial []
      [.call false (.acquire ()),.call true (.acquire ()),.call false (.release ()),.call false .yield,.resume true] =
        some (history,c.kernel printed) := by
  have found : (((initial false fun _ => 0).steps handedOver).toOption.map fun c => (c.settled.lock ()).ownerThread) =
      some (some true) := by decide +kernel
  have points : (initial false fun _ => 0).points handedOver =
      [.call false (.acquire ()),.call true (.acquire ()),.call false (.release ()),.call false .yield,.resume true] := by
    decide +kernel
  cases ran : (initial false fun _ => 0).steps handedOver with
  | error fault => simp [ran,Except.toOption] at found
  | ok c =>
    simp only [ran,Except.toOption,Option.map_some,Option.some.injEq] at found
    exact ⟨c,rfl,found,points ▸ kernel_refined .initial ran [] []⟩

end Nachos.Cpu

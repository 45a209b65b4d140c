import Nachos.CpuAtomic
import Nachos.KernelCalls

-- Mutual exclusion on the CPU: two threads are never both past the return of Acquire
-- and before the call of Release, wherever they are switched out.
namespace Nachos.Cpu
open Monitor

section
variable {T L C S : Type}

-- The latest Acquire of the lock by the thread has returned, and no Release since.
def Acquired (t : T) (l : L) : List (Event T L C S) → Prop
  | [] => False
  | .returned u (.acquire m) _ _ :: older => (u = t ∧ m = l) ∨ Acquired t l older
  | .returned u (.release m) _ _ :: older => ¬(u = t ∧ m = l) ∧ Acquired t l older
  | .returned _ (.p _) _ _ :: older | .returned _ (.v _) _ _ :: older | .returned _ (.wait _ _) _ _ :: older
  | .returned _ (.signal _ _) _ _ :: older | .returned _ (.fork _) _ _ :: older | .returned _ .yield _ _ :: older
  | .returned _ .finish _ _ :: older => Acquired t l older
  | .enqueued _ :: older | .dispatched _ _ :: older | .resumed _ :: older | .finished _ :: older | .deleted _ :: older =>
    Acquired t l older

instance decidableAcquired [DecidableEq T] [DecidableEq L] (t : T) (l : L) :
    (log : List (Event T L C S)) → Decidable (Acquired t l log)
  | [] => .isFalse id
  | .returned u (.acquire m) _ _ :: older =>
    @instDecidableOr _ _ (inferInstanceAs (Decidable (u = t ∧ m = l))) (decidableAcquired t l older)
  | .returned u (.release m) _ _ :: older =>
    @instDecidableAnd _ _ (inferInstanceAs (Decidable (¬(u = t ∧ m = l)))) (decidableAcquired t l older)
  | .returned _ (.p _) _ _ :: older | .returned _ (.v _) _ _ :: older | .returned _ (.wait _ _) _ _ :: older
  | .returned _ (.signal _ _) _ _ :: older | .returned _ (.fork _) _ _ :: older | .returned _ .yield _ _ :: older
  | .returned _ .finish _ _ :: older => decidableAcquired t l older
  | .enqueued _ :: older | .dispatched _ _ :: older | .resumed _ :: older | .finished _ :: older | .deleted _ :: older =>
    decidableAcquired t l older

-- The thread has called Release, itself or in Wait, and is not back.
def Releasing (l : L) (frames : List (Frame T L C S)) : Prop :=
  .call (.release l) ∈ frames ∨ ∃ entry, .ret (.release l) entry ∈ frames

def Acquires (l : L) (frames : List (Frame T L C S)) : Prop := ∃ entry, .ret (.acquire l) entry ∈ frames
end

variable {T L C S : Type} [DecidableEq T] [DecidableEq L] [DecidableEq C] [DecidableEq S] {c c' after : Cpu T L C S}
  {frame : Frame T L C S} {old new rest : List (Frame T L C S)} {action : Option (Kernel.Action T L C)}

-- It has not called Release since, and is not inside a Wait that gives the lock up.
def InCriticalSection (c : Cpu T L C S) (t : T) (l : L) : Prop :=
  Acquired t l c.log ∧ ¬Releasing l (c.stack t) ∧ ¬(c.kernel []).InsideWait t l

-- The calls of Acquire and Release on the stack and the returns in the log.
structure Records (c : Cpu T L C S) (action : Option (Kernel.Action T L C)) (after : Cpu T L C S) : Prop where
  acquires : ∀ l, Acquires l (after.stack c.currentThread) → Acquires l (c.stack c.currentThread) ∨
    action = some (.call c.currentThread (.acquire l)) ∨
      (action = some (.resume c.currentThread) ∧ ∃ d, insideOf (c.stack c.currentThread) = .wait d l)
  releases : ∀ l, action = some (.call c.currentThread (.release l)) → Releasing l (after.stack c.currentThread)
  told : ((∀ t l, Acquired t l after.log ↔ Acquired t l c.log) ∧
      ∀ l, Releasing l (c.stack c.currentThread) → Releasing l (after.stack c.currentThread)) ∨
    ∃ operation entry level rest, after.log = .returned c.currentThread operation entry level :: c.log ∧
      c.stack c.currentThread = .ret operation entry :: rest ∧ after.stack c.currentThread = rest

-- Frames that are neither.
def Frame.apart : Frame T L C S → Bool
  | .call (.release _) | .ret (.release _) _ | .ret (.acquire _) _ => false
  | _ => true

omit [DecidableEq T] [DecidableEq L] [DecidableEq C] [DecidableEq S] in
theorem apart_releasing (apart : ∀ f ∈ new, f.apart = true) : ¬Releasing l (new : List (Frame T L C S)) := by
  rintro (member | ⟨entry,member⟩)
  · cases apart _ member
  · cases apart _ member

omit [DecidableEq T] [DecidableEq L] [DecidableEq C] [DecidableEq S] in
theorem apart_acquires (apart : ∀ f ∈ new, f.apart = true) : ¬Acquires l (new : List (Frame T L C S)) := by
  rintro ⟨entry,member⟩
  cases apart _ member

omit [DecidableEq T] [DecidableEq L] [DecidableEq C] [DecidableEq S] in
theorem releasing_append : Releasing l (new ++ rest) ↔ Releasing l new ∨ Releasing l (rest : List (Frame T L C S)) := by
  simp only [Releasing,List.mem_append,exists_or]
  tauto

omit [DecidableEq T] [DecidableEq L] [DecidableEq C] [DecidableEq S] in
theorem acquires_append : Acquires l (new ++ rest) ↔ Acquires l new ∨ Acquires l (rest : List (Frame T L C S)) := by
  simp only [Acquires,List.mem_append,exists_or]

-- A step that does not go near the locks.
omit [DecidableEq L] [DecidableEq C] [DecidableEq S] in
theorem apart_records (old new rest : List (Frame T L C S)) (frames : c.stack c.currentThread = old ++ rest)
    (stack : c'.stack = Function.update below c.currentThread (new ++ rest))
    (gone : ∀ f ∈ old, f.apart = true) (comes : ∀ f ∈ new, f.apart = true)
    (told : ∀ t l, Acquired t l c'.log ↔ Acquired t l c.log)
    (other : ∀ l, action ≠ some (.call c.currentThread (.release l))) : Records c action c' := by
  have stack := congrFun stack c.currentThread
  rw [Function.update_self] at stack
  refine ⟨?_,fun l seen => absurd seen (other l),.inl ⟨told,?_⟩⟩
  · intro l acquires
    rw [stack,acquires_append] at acquires
    rw [frames,acquires_append]
    exact .inl (.inr (acquires.resolve_left (apart_acquires comes)))
  · intro l releasing
    rw [frames,releasing_append] at releasing
    rw [stack,releasing_append]
    exact .inr (releasing.resolve_left (apart_releasing gone))

omit [DecidableEq T] [DecidableEq L] [DecidableEq C] [DecidableEq S] in
theorem ending_records (operation : Operation T L C S) (level : IntStatus) :
    (∀ l, Acquires l (ending operation level : List (Frame T L C S)) → operation = .acquire l) ∧
      ∀ l, operation = .release l → Releasing l (ending operation level : List (Frame T L C S)) := by
  cases operation with
  | acquire m => simp [ending,Acquires,Releasing]
  | release m => simp [ending,Acquires,Releasing]
  | p | v | wait | signal | fork | yield | finish => simp [ending,Acquires]

omit [DecidableEq L] [DecidableEq C] [DecidableEq S] in
theorem readyToRun_told (c : Cpu T L C S) (woken : Option T) (t : T) (l : L) :
    Acquired t l (c.readyToRun woken).log ↔ Acquired t l c.log := by
  cases woken <;> exact Iff.rfl

-- What an operation puts on the stack before its last frames.
theorem body_records (c : Cpu T L C S) (operation : Operation T L C S) :
    (∀ l, ¬Acquires l (c.body operation).2) ∧ (∀ t l, Acquired t l (c.body operation).1.log ↔ Acquired t l c.log) := by
  cases operation with
  | p s => exact ⟨fun l => apart_acquires (by simp [body,Frame.apart]),fun _ _ => Iff.rfl⟩
  | v s => exact ⟨fun l => apart_acquires (by simp [body]),readyToRun_told _ _⟩
  | release m => exact ⟨fun l => apart_acquires (by simp [body]),readyToRun_told _ _⟩
  | signal d conditionLock => exact ⟨fun l => apart_acquires (by simp [body]),readyToRun_told _ _⟩
  | fork t => exact ⟨fun l => apart_acquires (by simp [body]),readyToRun_told _ _⟩
  | acquire m =>
    refine ⟨fun l => apart_acquires ?_,fun _ _ => Iff.rfl⟩
    simp only [body]
    split <;> simp [Frame.apart]
  | wait d conditionLock =>
    simp only [body]
    split
    · exact ⟨fun l => apart_acquires (by simp),fun _ _ => Iff.rfl⟩
    · exact ⟨fun l => by simp [Acquires],fun _ _ => Iff.rfl⟩
  | yield =>
    simp only [body]
    split
    · exact ⟨fun l => apart_acquires (by simp),fun _ _ => Iff.rfl⟩
    · exact ⟨fun l => apart_acquires (by simp [Frame.apart]),fun _ _ => Iff.rfl⟩
  | finish => exact ⟨fun l => apart_acquires (by simp [body,Frame.apart]),fun _ _ => Iff.rfl⟩

-- An operation, called by the thread itself or as the frame on top.
theorem enter_records (old rest : List (Frame T L C S)) (operation : Operation T L C S)
    (frames : c.stack c.currentThread = old ++ rest) (nested : ∀ l, Releasing l old → operation = .release l)
    (stack : c'.stack = Function.update below c.currentThread ((c.enter operation).2 ++ rest))
    (log : c'.log = (c.enter operation).1.log)
    (acquires : ∀ l, operation = .acquire l → action = some (.call c.currentThread (.acquire l)) ∨
      (action = some (.resume c.currentThread) ∧ ∃ d, insideOf (c.stack c.currentThread) = .wait d l))
    (releases : ∀ l, action = some (.call c.currentThread (.release l)) → operation = .release l) : Records c action c' := by
  have stack := congrFun stack c.currentThread
  rw [Function.update_self] at stack
  obtain ⟨none_,told⟩ := body_records {c with level := .IntOff} operation
  obtain ⟨acquired,released⟩ := ending_records (T := T) (S := S) operation c.level
  refine ⟨?_,?_,.inl ⟨?_,?_⟩⟩
  · intro l found
    rw [stack] at found
    simp only [enter,List.append_assoc,acquires_append] at found
    rw [frames,acquires_append]
    rcases found with one | two | three
    · exact absurd one (none_ l)
    · exact .inr (frames ▸ acquires l (acquired l two))
    · exact .inl (.inr three)
  · intro l seen
    rw [stack]
    simp only [enter,List.append_assoc,releasing_append]
    exact .inr (.inl (released l (releases l seen)))
  · intro t l
    rw [log]
    exact told t l
  · intro l releasing
    rw [frames,releasing_append] at releasing
    rw [stack]
    simp only [enter,List.append_assoc,releasing_append]
    rcases releasing with here | below
    · exact .inr (.inl (released l (nested l here)))
    · exact .inr (.inr below)

omit [DecidableEq L] [DecidableEq C] [DecidableEq S] in
theorem setLevel_records (old rest : List (Frame T L C S)) (frames : c.stack c.currentThread = old ++ rest)
    (apart : ∀ f ∈ old, f.apart = true) (changed : c.setLevel now = .ok (middle,pushed)) :
    Records c none {middle with stack := Function.update middle.stack c.currentThread (pushed ++ rest)} := by
  unfold setLevel at changed
  split at changed <;> cases changed
  refine apart_records old _ rest frames rfl apart ?_ (fun _ _ => Iff.rfl) (by simp)
  split <;> simp [Frame.apart]

theorem own_records (empty : c.stack c.currentThread = []) (executed : c.own choice = .ok (middle,pushed)) :
    Records c (choice.point c.currentThread) {middle with stack := Function.update middle.stack c.currentThread pushed} := by
  have stays : Records c none {c with stack := Function.update c.stack c.currentThread []} :=
    apart_records [] [] [] empty rfl (by simp) (by simp)
      (fun _ _ => Iff.rfl) (by simp)
  have calls : ∀ operation, Records c (operation.kernelCall.map (.call c.currentThread)) {(c.enter operation).1 with
      stack := Function.update (c.enter operation).1.stack c.currentThread (c.enter operation).2} := by
    intro operation
    refine enter_records [] [] operation empty (by simp [Releasing]) (by rw [List.append_nil]) rfl ?_ ?_
    · rintro l rfl
      exact .inl rfl
    · intro l seen
      cases operation <;> simp_all [Operation.kernelCall]
  cases choice with
  | call operation =>
    have entered : c.own (.call operation) = .ok (c.enter operation) ∨
        (c.own (.call operation) = .ok (c,[]) ∧ operation.kernelCall = none) := by
      cases operation with
      | fork t =>
        simp only [own]
        split
        · exact .inl rfl
        · exact .inr ⟨rfl,rfl⟩
      | p | v | acquire | release | wait | signal | yield | finish => exact .inl rfl
    rcases entered with entered | ⟨refused,unseen⟩
    · have result := calls operation
      rw [Except.ok.inj (entered.symm.trans executed)] at result
      exact result
    · obtain ⟨rfl,rfl⟩ := Prod.mk.inj (Except.ok.inj (refused.symm.trans executed))
      rw [Choice.point,unseen]
      exact stays
  | setLevel now =>
    have result := setLevel_records [] [] empty (by simp) executed
    simp only [List.append_nil] at result
    exact result
  | oneTick =>
    cases executed
    split
    · exact apart_records [] [.tick] [] empty rfl (by simp) (by simp [Frame.apart])
        (fun _ _ => Iff.rfl) (by simp [Choice.point])
    · exact stays
  | fire | go =>
    cases executed
    exact stays

theorem ret_records (frames : c.stack c.currentThread = .ret operation entry :: rest)
    (executed : c.exec choice (.ret operation entry) = .ok (middle,pushed)) :
    Records c none {middle with stack := Function.update middle.stack c.currentThread (pushed ++ rest)} := by
  cases executed
  refine ⟨?_,by simp,.inr ⟨operation,entry,c.level,rest,rfl,frames,by simp⟩⟩
  intro l acquires
  simp only [Function.update_self,List.nil_append] at acquires
  rw [frames]
  exact .inl (acquires.imp fun _ member => List.mem_cons_of_mem _ member)

theorem exec_apart (called : ∀ operation, frame ≠ .call operation)
    (returns : ∀ operation entry, frame ≠ .ret operation entry) (executed : c.exec choice frame = .ok (middle,pushed)) :
    (∀ f ∈ pushed, f.apart = true) ∧ ∀ t l, Acquired t l middle.log ↔ Acquired t l c.log := by
  cases frame with
  | call operation => exact absurd rfl (called operation)
  | ret operation entry => exact absurd rfl (returns operation entry)
  | restore | root =>
    simp only [exec,setLevel] at executed
    split at executed <;> cases executed
    refine ⟨?_,fun _ _ => Iff.rfl⟩
    split <;> simp [Frame.apart]
  | test s =>
    cases executed
    refine ⟨?_,fun _ _ => Iff.rfl⟩
    split <;> simp [Frame.apart]
  | sleep | sleepLoop =>
    simp only [exec] at executed
    split at executed <;> cases executed <;> exact ⟨by simp [Frame.apart],fun _ _ => Iff.rfl⟩
  | switched reason =>
    simp only [exec] at executed
    split at executed
    · cases executed
      exact ⟨by simp,fun _ _ => Iff.rfl⟩
    · split at executed <;> cases executed
      exact ⟨by simp,fun _ _ => Iff.rfl⟩
  | tick =>
    cases executed
    exact ⟨by simp [Frame.apart],fun _ _ => Iff.rfl⟩
  | ticking | idle | idling =>
    simp only [exec] at executed
    split at executed
    · cases executed
    · split at executed <;> cases executed <;> refine ⟨?_,fun _ _ => Iff.rfl⟩
      all_goals simp [Frame.apart]

theorem exec_records (placed : Placed c) (frames : c.stack c.currentThread = frame :: rest)
    (executed : c.exec choice frame = .ok (middle,pushed)) : Records c (frame.point c.currentThread) {middle with
      stack := Function.update middle.stack c.currentThread (pushed ++ rest)} := by
  have shaped := placed.shaped c.currentThread
  rw [frames] at shaped
  have calm : (∀ operation, frame ≠ .call operation) → (∀ operation entry, frame ≠ .ret operation entry) →
      Records c (frame.point c.currentThread) {middle with
        stack := Function.update middle.stack c.currentThread (pushed ++ rest)} := by
    intro called returns
    obtain ⟨comes,told⟩ := exec_apart called returns executed
    refine apart_records [frame] pushed rest frames rfl ?_ comes told ?_
    · cases frame with
      | call operation => exact absurd rfl (called operation)
      | ret operation entry => exact absurd rfl (returns operation entry)
      | restore | test | sleep | sleepLoop | switched | root | tick | ticking | idle | idling => simp [Frame.apart]
    · intro l seen
      unfold Frame.point at seen
      split at seen <;> cases seen
  cases frame with
  | call operation =>
    have calls : (∀ l, operation = .acquire l → ∃ d, insideOf (c.stack c.currentThread) = .wait d l) →
        (∀ l, Frame.point c.currentThread (.call operation) ≠ some (.call c.currentThread (.release l))) →
        Records c (Frame.point c.currentThread (.call operation)) {(c.enter operation).1 with
          stack := Function.update (c.enter operation).1.stack c.currentThread ((c.enter operation).2 ++ rest)} := by
      intro waits other
      refine enter_records [.call operation] rest operation frames ?_ rfl rfl ?_ fun l seen => absurd seen (other l)
      · rintro l (member | ⟨entry,member⟩)
        · simpa [eq_comm] using member
        · simp at member
      · rintro l rfl
        exact .inr ⟨rfl,waits l rfl⟩
    cases executed
    refine calls ?_ ?_
    · rintro l rfl
      obtain ⟨⟨d,waits⟩,_⟩ := shaped.1
      refine ⟨d,?_⟩
      rw [frames]
      simp only [insideOf,Frame.inside,waits]
    · intro l seen
      unfold Frame.point at seen
      split at seen <;> cases seen
  | ret operation entry => exact ret_records frames executed
  | restore | test | sleep | sleepLoop | switched | root | tick | ticking | idle | idling => exact calm (by simp) (by simp)

theorem handler_records (handles : frame.Handles) (executed : c.exec choice frame = .ok (middle,pushed)) :
    Records c none {middle with handler := later} := by
  have same : ∀ {c' : Cpu T L C S}, c'.stack = c.stack → (∀ t l, Acquired t l c'.log ↔ Acquired t l c.log) →
      Records c none c' := by
    intro c' stack told
    exact ⟨fun l found => .inl (by rwa [stack] at found),by simp,.inl ⟨told,fun l found => by rwa [stack]⟩⟩
  cases frame with
  | call operation =>
    cases operation with
    | v s =>
      cases executed
      refine same ?_ (readyToRun_told _ _)
      exact (readyToRun_fields _ _).2.2.2.1
    | p | acquire | release | wait | signal | fork | yield | finish => cases handles
  | restore oldLevel =>
    simp only [exec,setLevel] at executed
    split at executed <;> cases executed
    exact same rfl fun _ _ => Iff.rfl
  | ret operation entry =>
    cases operation with
    | v s =>
      cases executed
      exact same rfl fun _ _ => Iff.rfl
    | p | acquire | release | wait | signal | fork | yield | finish => cases handles
  | test | sleep | sleepLoop | switched | root | tick | ticking | idle | idling => cases handles

theorem step_records (leveled : Leveled c) (placed : Placed c) (stepped : c.step choice = .ok after) :
    Records c (c.point choice) after := by
  have stays : ∀ inHandler, Records c none {c with inHandler := inHandler} := fun _ =>
    ⟨fun l found => .inl found,by simp,.inl ⟨fun _ _ => Iff.rfl,fun _ found => found⟩⟩
  unfold step at stepped
  split at stepped
  · rename_i halted
    cases stepped
    rw [show c.point choice = none by simp [point,halted]]
    exact stays c.inHandler
  · rename_i going
    split at stepped
    · rename_i inside
      rw [show c.point choice = none by simp [point,inside]]
      split at stepped
      · cases stepped
        exact stays false
      · rename_i frame rest handler
        obtain ⟨⟨middle,pushed⟩,executed,result⟩ := bind_ok stepped
        cases result
        exact handler_records ((leveled.handling inside).2 frame (by simp [handler])) executed
    · rename_i outside
      split at stepped
      · rename_i empty
        obtain ⟨⟨middle,pushed⟩,executed,result⟩ := bind_ok stepped
        cases result
        rw [show c.point choice = choice.point c.currentThread by simp [point,going,outside,empty]]
        exact own_records empty executed
      · rename_i frame rest frames
        obtain ⟨⟨middle,pushed⟩,executed,result⟩ := bind_ok stepped
        cases result
        rw [show c.point choice = frame.point c.currentThread by simp [point,going,outside,frames]]
        exact exec_records placed frames executed

-- A thread asleep in Acquire stays so or is owner.
theorem entering_entitled {k k' : Kernel T L C} {action : Kernel.Action T L C} (valid : Kernel.Valid k)
    (steps : Kernel.Steps k action k') (entering : (k.inside t).entering = some l) :
    (k'.inside t).entering = some l ∨ k'.Entitled t l := by
  by_cases own : t = action.thread
  · subst own
    cases steps with
    | @call u what ready outside =>
      have entering : (k.inside u).entering = some l := entering
      rw [outside] at entering
      cases entering
    | returns ready place => exact .inr (.inl (valid.handed ready entering))
    | @reacquires u d m ready place =>
      have entering : (k.inside u).entering = some l := entering
      rw [place] at entering
      cases entering
    | @loops u d m ready place =>
      have entering : (k.inside u).entering = some l := entering
      rw [place] at entering
      cases entering
  · exact .inl (by rw [(Kernel.step_spares steps own).1,entering])

-- A call of Acquire puts the thread to sleep in it or makes it owner.
omit [DecidableEq C] in
theorem acquire_entitled {k : Kernel T L C} (valid : Kernel.Valid k) (enters : place.entering = some l) :
    ((k.acquire t l place).inside t).entering = some l ∨ (k.acquire t l place).Entitled t l := by
  cases sleeps : ((k.lock l).acquire t).2 with
  | true => exact .inl (by simp [Kernel.acquire_inside,sleeps,enters])
  | false => exact .inr (.inl (Kernel.acquire_returned valid.locks sleeps place))

theorem acquires_entitled {k k' : Kernel T L C} {action : Kernel.Action T L C} (valid : Kernel.Valid k)
    (steps : Kernel.Steps k action k')
    (acquires : action = .call t (.acquire l) ∨ (action = .resume t ∧ ∃ d, k.inside t = .wait d l)) :
    (k'.inside t).entering = some l ∨ k'.Entitled t l := by
  rcases acquires with rfl | ⟨rfl,d,waits⟩
  · cases steps with
    | call => exact acquire_entitled valid rfl
  · cases steps with
    | returns ready place =>
      rw [waits] at place
      cases place
    | reacquires ready place =>
      rw [waits] at place
      cases place
      exact acquire_entitled valid rfl
    | loops ready place =>
      rw [waits] at place
      cases place

theorem reached_valid (reached : Reached main initialValue c) : Kernel.Valid (c.kernel []) := by
  obtain ⟨history,printed,path⟩ := reached_runs reached
  obtain ⟨locks,waits⟩ := Kernel.runs_valid path
  exact ⟨⟨locks.busy,locks.queueBusy,locks.nodup,locks.ownerOut,locks.queued,locks.entered,locks.gaveUp⟩,
    ⟨waits.nodup,waits.null,waits.queued,waits.waits,waits.awake⟩⟩

structure Entitles (c : Cpu T L C S) : Prop where
  fresh : ∀ t, c.status t = .JUST_CREATED → ∀ l, ¬Acquired t l c.log
  pending : ∀ t l, Acquires l (c.stack t) → (insideOf (c.stack t)).entering = some l ∨ (c.kernel []).Entitled t l
  held : ∀ t l, Acquired t l c.log → ¬Releasing l (c.stack t) → (c.kernel []).Entitled t l

-- What a step of the CPU does to what a thread may claim.
structure Claims (c : Cpu T L C S) (action : Option (Kernel.Action T L C)) (after : Cpu T L C S) (t : T) (l : L) : Prop where
  entitled : action ≠ some (.call t (.release l)) → (c.kernel []).Entitled t l → (after.kernel []).Entitled t l
  entering : (insideOf (c.stack t)).entering = some l →
    (insideOf (after.stack t)).entering = some l ∨ (after.kernel []).Entitled t l
  acquires : (action = some (.call t (.acquire l)) ∨
      (action = some (.resume t) ∧ ∃ d, insideOf (c.stack t) = .wait d l)) →
    (insideOf (after.stack t)).entering = some l ∨ (after.kernel []).Entitled t l

theorem advances_claims (valid : Kernel.Valid (c.kernel [])) (advances : Advances c action after) (t : T) (l : L) :
    Claims c action after t l := by
  have kernel := advances.kernel []
  cases action with
  | none =>
    have inside : ∀ t, insideOf (after.stack t) = insideOf (c.stack t) := fun t => congrFun (congrArg Kernel.inside kernel) t
    refine ⟨?_,?_,by simp⟩
    · intro _ entitled
      rwa [kernel]
    · intro entering
      exact .inl (by rwa [inside])
  | some action =>
    obtain ⟨printed,steps⟩ := kernel
    refine ⟨?_,?_,?_⟩
    · intro other entitled
      have kept : (after.kernel printed).Entitled t l :=
        Kernel.step_entitled valid steps entitled fun same => other (same ▸ rfl)
      exact kept
    · exact entering_entitled valid steps
    · intro acquires
      refine acquires_entitled valid steps ?_
      rcases acquires with called | ⟨resumed,waits⟩
      · exact .inl (Option.some.inj called)
      · exact .inr ⟨Option.some.inj resumed,waits⟩

omit [DecidableEq T] [DecidableEq L] [DecidableEq C] [DecidableEq S] in
theorem acquired_other {operation : Operation T L C S} {entry now : IntStatus} (other : t ≠ u) (log : List (Event T L C S)) :
    Acquired t l (.returned u operation entry now :: log) ↔ Acquired t l log := by
  cases operation <;> simp [Acquired,other.symm]

-- What the return of one of its own operations changes.
omit [DecidableEq T] [DecidableEq L] [DecidableEq C] [DecidableEq S] in
theorem acquired_own {operation : Operation T L C S} {entry now : IntStatus} {log : List (Event T L C S)}
    (acquired : Acquired t l (.returned t operation entry now :: log)) :
    operation = .acquire l ∨ (operation ≠ .release l ∧ Acquired t l log) := by
  cases operation <;> simp_all [Acquired]

omit [DecidableEq T] [DecidableEq L] [DecidableEq C] [DecidableEq S] in
theorem point_own (seen : c.point choice = some (.call u what)) : u = c.currentThread ∧ c.stack c.currentThread = [] := by
  simp only [point] at seen
  split at seen
  · cases seen
  · split at seen
    · rename_i empty
      refine ⟨?_,empty⟩
      cases choice with
      | call operation =>
        obtain ⟨what,_,called⟩ := Option.map_eq_some_iff.mp seen
        cases called
        rfl
      | setLevel | oneTick | fire | go => cases seen
    · unfold Frame.point at seen
      split at seen <;> cases seen

theorem step_entitles (reached : Reached main initialValue c) (entitles : Entitles c) (stepped : c.step choice = .ok after) :
    Entitles after := by
  obtain ⟨bed,conserved⟩ := reached_conserved reached
  have leveled := reached_leveled reached
  have orderly := reached_orderly reached
  have placed := reached_placed reached
  have records := step_records leveled placed stepped
  have claims := advances_claims (reached_valid reached) (step_advances leveled orderly placed conserved stepped)
  have created := reached_created reached c.currentThread (reached_collected reached).running
  have elsewhere : ∀ t, t ≠ c.currentThread →
      after.stack t = c.stack t ∨ (after.stack t = [.root] ∧ c.status t = .JUST_CREATED) := by
    rcases (step_turn leveled orderly stepped).2 with turn | same
    · exact turn_stacks turn
    · exact fun t _ => .inl (congrFun (congrArg View.stack same) t)
  have others : ∀ t, t ≠ c.currentThread → ∀ l, (Acquired t l after.log ↔ Acquired t l c.log) := by
    intro t other l
    rcases records.told with ⟨told,_⟩ | ⟨operation,entry,now,rest,log,_⟩
    · exact told t l
    · rw [log]
      exact acquired_other other _
  obtain ⟨fresh,pending,held⟩ := entitles
  refine ⟨?_,?_,?_⟩
  · intro t uncreated l acquired
    have before := step_created leveled orderly stepped uncreated
    have other : t ≠ c.currentThread := by
      rintro rfl
      exact created before
    exact fresh t before l ((others t other l).mp acquired)
  · intro t l acquires
    by_cases own : t = c.currentThread
    · subst own
      rcases records.acquires l acquires with before | called
      · rcases pending _ l before with entering | entitled
        · exact (claims _ l).entering entering
        · refine .inr ((claims _ l).entitled ?_ entitled)
          intro seen
          rw [(point_own seen).2] at before
          obtain ⟨entry,member⟩ := before
          cases member
      · exact (claims _ l).acquires called
    · rcases elsewhere t own with same | ⟨forked,_⟩
      · rw [same] at acquires
        rcases pending t l acquires with entering | entitled
        · exact (claims t l).entering entering
        · exact .inr ((claims t l).entitled (fun seen => own (point_own seen).1) entitled)
      · rw [forked] at acquires
        obtain ⟨entry,member⟩ := acquires
        simp at member
  · intro t l acquired free
    by_cases own : t = c.currentThread
    · subst own
      rcases records.told with ⟨told,keeps⟩ | ⟨operation,entry,now,rest,log,frames,left⟩
      · refine (claims _ l).entitled (fun seen => free (records.releases l seen)) ?_
        exact held _ l ((told _ l).mp acquired) fun releasing => free (keeps l releasing)
      · have calm : c.point choice ≠ some (.call c.currentThread (.release l)) := by
          intro seen
          rw [(point_own seen).2] at frames
          cases frames
        refine (claims _ l).entitled calm ?_
        rw [log] at acquired
        rcases acquired_own acquired with rfl | ⟨other,earlier⟩
        · -- The Acquire that returns is not asleep.
          rcases pending _ l (by rw [frames]; exact ⟨entry,by simp⟩) with entering | entitled
          · have shaped := placed.shaped c.currentThread
            rw [frames] at shaped entering
            have outside : insideOf (.ret (.acquire l) entry :: rest) = .none := shaped.1
            rw [outside] at entering
            cases entering
          · exact entitled
        · refine held _ l earlier ?_
          rw [frames]
          rintro (called | ⟨level,member⟩)
          · exact free (left ▸ .inl (by simpa using called))
          · rcases List.mem_cons.mp member with top | below
            · cases top
              exact other rfl
            · exact free (left ▸ .inr ⟨level,below⟩)
    · have earlier := (others t own l).mp acquired
      rcases elsewhere t own with same | ⟨_,unborn⟩
      · rw [same] at free
        exact (claims t l).entitled (fun seen => own (point_own seen).1) (held t l earlier free)
      · exact absurd earlier (fresh t unborn l)

theorem reached_entitles (reached : Reached main initialValue c) : Entitles c := by
  induction reached with
  | initial =>
    refine ⟨fun _ _ _ acquired => acquired,?_,fun _ _ acquired => acquired.elim⟩
    rintro t l ⟨entry,member⟩
    cases member
  | step prior stepped ih => exact step_entitles prior ih stepped

-- Mutual exclusion under preemption: a thread is owner of the lock from the return of
-- Acquire to the call of Release.
theorem critical_sections_apart (reached : Reached main initialValue c) (l : L) :
    (∀ t, InCriticalSection c t l → (c.settled.lock l).ownerThread = some t) ∧
    (∀ t u, InCriticalSection c t l → InCriticalSection c u l → t = u) ∧
    (∀ t, t ∈ (c.settled.lock l).waitQueue → ∃ u, (c.settled.lock l).ownerThread = some u ∧ u ≠ t) := by
  have entitles := reached_entitles reached
  have valid := (reached_valid reached).locks
  have owner : ∀ t, InCriticalSection c t l → (c.settled.lock l).ownerThread = some t := by
    rintro t ⟨acquired,free,out⟩
    exact (entitles.held t l acquired free).resolve_right out
  refine ⟨owner,?_,?_⟩
  · intro t u first second
    have one := owner t first
    rw [owner u second] at one
    exact (Option.some.inj one).symm
  · intro t queued
    have busy := valid.queueBusy l (List.ne_nil_of_mem queued)
    obtain ⟨u,owned⟩ := Option.ne_none_iff_exists'.mp ((valid.busy l).mp busy)
    refine ⟨u,owned,?_⟩
    rintro rfl
    exact valid.ownerOut l u owned queued

theorem critical_sections_apart_contended : ∃ c, (initial false fun _ => 0).steps contended = .ok c ∧
    InCriticalSection c false () ∧ true ∈ (c.settled.lock ()).waitQueue ∧
    (c.settled.lock ()).ownerThread = some false ∧ ∀ t, InCriticalSection c t () → t = false := by
  have found : (((initial false fun _ => 0).steps contended).toOption.map fun c => decide
      (Acquired false () c.log ∧ c.stack false = [] ∧ true ∈ (c.settled.lock ()).waitQueue)) = some true := by
    decide +kernel
  cases ran : (initial false fun _ => 0).steps contended with
  | error fault => simp [ran,Except.toOption] at found
  | ok c =>
    simp only [ran,Except.toOption,Option.map_some,Option.some.injEq,decide_eq_true_eq] at found
    obtain ⟨acquired,between,queued⟩ := found
    have inside : InCriticalSection c false () :=
      ⟨acquired,by simp [between,Releasing],Kernel.none_outside (by simp only [kernel,between,insideOf]) ()⟩
    obtain ⟨owner,apart,_⟩ := critical_sections_apart (steps_reached .initial ran) ()
    exact ⟨c,rfl,inside,queued,owner false inside,fun t other => apart t false other inside⟩

end Nachos.Cpu

import Coroutine.Proofs.Effect.Operation

/-! What the steps of a caller do, what requests do, and what frames do with answers and panics.
Main statement: every move has its effect on top of its base. -/

namespace Coroutine.Machine

variable {C : Type} {P : Program C} {m : Machine C} {w : World C} {fs : List (Frame C)}
  {f : Frame C} {g : GeneratorId} {y : Option GeneratorId} {a : Answer} {u : Unwinding}

/-- A name in the world that a move finds is a handle. -/
theorem Edited.hold {name : String} (h : Edited P m w) (hw : w.handles = m.world.handles)
    (hfind : w.handles.find? name = some g) : Edited P m (w.retain g) :=
  h.retain fun _ => ⟨name, hw ▸ hfind⟩

/-! ### Steps -/

theorem effect_nameHandle (h : Edited P m w) (name : String) (a : Answer) :
    Effect P m y fs (nameHandle w fs name g a) := by
  simp only [nameHandle]
  split
  · exact .answers h.handles _
  · exact .under _ (.asks h.handles rfl rfl) rfl

theorem effect_nameIterator {name : String} (h : Edited P m w) (hname : m.iterator? = some name)
    (source : Option GeneratorId) (a : Answer) :
    Effect P m y fs (nameIterator w fs name source a) := by
  have hnamed : Edited P m { w with iterators := w.iterators.insert name source } := by
    refine h.iterators fun it hit => (Table.find?_insert ..).trans (if_neg ?_)
    rintro rfl
    exact hit hname
  simp only [nameIterator]
  split
  · exact .under _ (.asks hnamed rfl rfl) rfl
  · exact .answers hnamed _

theorem effect_nameFiber (h : Edited P m w) (name : String) (fiber : Fiber C) (a : Answer) :
    Effect P m y fs (nameFiber w fs name fiber a) := by
  simp only [nameFiber]
  split
  · exact .answers h.fibers _
  · exact .under _ (.asks h.fibers rfl rfl) rfl

theorem effect_operate (h : Edited P m w) (hw : w.handles = m.world.handles) (name : String)
    {t : GeneratorId → Task C} (hends : ∀ g, (t g).ends? = none)
    (hcalm : ∀ g, (Control.task (t g)).switches? = none) :
    Effect P m y fs (operate w fs name t) := by
  simp only [operate]
  split
  · exact .answers h _
  · next g hfind =>
    exact .under _ (.under _ (.asks (h.hold hw hfind) (hends g) (hcalm g)) rfl) rfl

theorem effect_pullNamed {it : String} (h : Edited P m w) (hit : m.iterator? = some it)
    (source : Option GeneratorId) (left : Nat) (items : List (Item ErrorReport)) :
    Effect P m y fs (pullNamed w fs it source left items) := by
  simp only [pullNamed]
  split
  · exact .under _ (.asks h rfl rfl) rfl
  · exact effect_nameIterator h hit ..

theorem effect_createFiber (h : Edited P m w) (name : String) (size : Nat)
    (captures : List (Guard C)) (entry : C) :
    Effect P m y fs (createFiber w fs name size captures entry) := by
  have hheld := h.holdGuards captures
  simp only [createFiber]
  split
  · exact .under _ (.asks hheld rfl rfl) rfl
  split
  · exact .under _ (.under _ (.asks hheld rfl rfl) rfl) rfl
  · exact effect_nameFiber (hheld.mention rfl) ..

theorem effect_switchFiber (h : Edited P m w) (name : String) (fiber : Fiber C) :
    Effect P m y fs (switchFiber w fs name fiber) := by
  simp only [switchFiber]
  split
  · next entry _ =>
    exact .under _ (.under_stackFiber [] entry.captures (.runs h.fibers entry.code)) rfl
  · next k scopes captures _ =>
    exact .under _ (.under_stackFiber scopes captures (.runs h.fibers (k (.ok none)))) rfl
  · exact .answers h _

theorem effect_unwindOwning (h : Edited P m w) {owner : Frame C} (howner : owner.ends? = none) :
    Effect P m y fs (unwindOwning w fs owner) :=
  .under owner (.raises h (.user _)) howner

theorem effect_makeStep (s : Step C) :
    Effect P (task w fs (.step s)) none fs (makeStep w fs s) := by
  have h : Edited P (task w fs (.step s)) w := .task
  cases s with
  | create => exact effect_nameHandle (h.add rfl) ..
  | resume | close => exact effect_operate h rfl _ (fun _ => rfl) fun _ => rfl
  | throw name e =>
    simp only [makeStep]
    split
    · exact .answers h _
    · exact effect_operate (h.make e) rfl _ (fun _ => rfl) fun _ => rfl
  | info | sameGenerator | fiberInfo =>
    simp only [makeStep]
    split <;> exact .answers h _
  | clone =>
    simp only [makeStep]
    split
    · exact .answers h _
    · next hfind => exact effect_nameHandle (h.hold rfl hfind) ..
  | drop =>
    simp only [makeStep]
    split
    · exact .answers h _
    · exact .under _ (.asks h.handles rfl rfl) rfl
  | iterate name it into =>
    simp only [makeStep]
    split
    · exact .answers h _
    · next hfind =>
      refine effect_nameIterator ?_ (by simp [iterator?, task, Step.iterator?, hfind]) _ _
      cases into
      · exact h.hold rfl hfind
      · exact h.handles
  | pull it =>
    simp only [makeStep]
    split
    · exact .answers h _
    · refine effect_pullNamed (h.iterators fun other hit => ?_) rfl ..
      exact (Table.find?_erase ..).trans (if_neg fun hname => hit (congrArg some hname.symm))
  | dropIterator it =>
    simp only [makeStep]
    split
    · exact .answers h _
    · refine .under (.keeping _) (.asks (h.iterators fun other hit => ?_) rfl rfl) rfl
      exact (Table.find?_erase ..).trans (if_neg fun hname => hit (congrArg some hname.symm))
  | nameException name e =>
    exact .answers (((h.make e).meet (w.make e).1).call name (w.make e).1) _
  | describe e => exact .answers ((h.make e).meet (w.make e).1) _
  | sameException x y => exact .answers ((h.make x).make y) _
  | unwind => exact effect_unwindOwning h.handles rfl
  | unwindFibers => exact effect_unwindOwning h.fibers rfl
  | unwindDestroy =>
    simp only [makeStep]
    split
    · exact .answers h _
    · exact effect_unwindOwning h.fibers rfl
  | createFiber => exact effect_createFiber h ..
  | switch =>
    simp only [makeStep]
    split
    · exact .answers h _
    · exact effect_switchFiber h ..
  | destroy | dropFiber =>
    simp only [makeStep]
    split
    · exact .answers h _
    · exact .under _ (.asks h.fibers rfl rfl) rfl

theorem effect_perform (t : Task C) : Effect P (task w fs t) t.ends? fs (perform w fs t) := by
  cases t with
  | resume g sent => exact effect_resume sent
  | start g => exact effect_start
  | throw g e => exact effect_throwInto e
  | close g => exact effect_close
  | drive g => exact effect_drive
  | wake g k => exact effect_wake k
  | suspended g => exact effect_suspended
  | terminated g => exact effect_terminated
  | abandon g => exact effect_abandon
  | finalize g => exact effect_finalize
  | releaseEntry g => exact effect_releaseEntry
  | releasePayload g => exact effect_releasePayload
  | dropHandle g => exact effect_dropHandle
  | release guards => exact effect_release guards
  | releaseScope s => exact effect_releaseScope s
  | discard announced fiber => exact effect_discard announced fiber
  | step s => exact effect_makeStep s

/-! ### Requests -/

theorem Edited.code {c : C} : Edited P (code w fs c) w := .start

theorem Effect.does_code {c : C} {m' : Machine C} (h : Effect P (code w fs c) none fs m') :
    Does P (code w fs c) m' :=
  ⟨none, fs, .all nofun, h⟩

theorem effect_yield {c : C} {v : Value} {k : Except Exception (Option Value) → C}
    (hP : P.next c = .yield v k) : Does P (code w fs c) (yield w fs v k) := by
  have h : Edited P (code w fs c) w := .code
  simp only [yield]
  split
  · next scopes captures g rest hsplit =>
    have hg : Acts P g (code w fs c) := .yields rfl hP (by simp [code, producer?, hsplit])
    split
    · exact (Effect.faults h _).does_code
    split
    · exact (Effect.faults h _).does_code
    · have hbase := splitFiber_eq_some_iff.mp hsplit
      refine ⟨none, rest, .yields rfl hP hbase rfl, .hands ?_ hg rfl rfl⟩
      exact (h.record (r := .switchesOut g (w.generator g).name) hg rfl fun _ => rfl).alter
        hg.concerns (fun _ => rfl) fun _ => rfl
  · next scopes captures name size rest hsplit =>
    exact ⟨none, rest, .yields rfl hP (splitFiber_eq_some_iff.mp hsplit) rfl,
      effect_nameFiber h ..⟩
  · exact (Effect.halts h).does_code

theorem effect_holdIterator {c : C} (name : String) (into : Bool) (k : Bool → C) :
    Effect P (code w fs c) none fs (holdIterator w fs name into k) := by
  have h : Edited P (code w fs c) w := .code
  simp only [holdIterator]
  split
  · exact .runs (h.tell (fun _ => rfl) fun _ => rfl) _
  · next hfind =>
    refine .under (.scope _) (.runs ?_ _) rfl
    cases into
    · exact h.hold rfl hfind
    · exact h.handles

theorem effect_useView {c : C} (v : View) (k : Reply → C) :
    Effect P (code w fs c) none fs (useView w fs g v k) := by
  have h : Edited P (code w fs c) w := .code
  have hviewed (r : Reply) : Edited P (code w fs c) (w.note (.viewed r)) :=
    h.tell (fun _ => rfl) fun _ => rfl
  simp only [useView]
  split
  · exact .runs (hviewed _) _
  next hheld =>
  cases v with
  | resume | close => exact .under _ (.asks (h.retain fun h0 => absurd h0 hheld) rfl rfl) rfl
  | throw e => exact .under _ (.asks ((h.make e).retain fun h0 => absurd h0 hheld) rfl rfl) rfl
  | info => exact .runs (hviewed _) _
  | is =>
    dsimp only
    split <;> exact .runs (hviewed _) _

theorem effect_grant (c : C) : Does P (code w fs c) (grant w fs (P.next c)) := by
  have h : Edited P (code w fs c) w := .code
  cases hP : P.next c with
  | yield v k => exact effect_yield hP
  | leave c' =>
    simp only [grant]
    split
    · next s rest =>
      exact ⟨none, rest, .leaves rfl hP rfl, .under _ (.asks h rfl rfl) rfl⟩
    · exact (Effect.runs h _).does_code
  | finish => exact (Effect.answers h _).does_code
  | panic message => exact (Effect.raises h (.user message)).does_code
  | silent c' => exact (Effect.runs h c').does_code
  | emit v c' => exact (Effect.runs (h.tell (fun _ => rfl) fun _ => rfl) c').does_code
  | producerName c' =>
    simp only [grant]
    split
    · exact (Effect.runs h c').does_code
    · exact (Effect.runs (h.tell (fun _ => rfl) fun _ => rfl) c').does_code
  | append v c' =>
    simp only [grant]
    split
    · exact (Effect.runs h c').does_code
    · next g hg =>
      have happend : Pays P g (code w fs c) := .appends (v := v) (by simp [appends?, code, hP, hg])
      refine (Effect.runs (h.pay happend fun x => ?_) c').does_code
      split <;> rfl
  | make e k => exact (Effect.runs (h.make e) _).does_code
  | wrap e k => exact (Effect.runs ((h.report e).create (.operation e)) _).does_code
  | caught e name c' =>
    refine (Effect.runs (.tell ?_ (fun _ => rfl) fun _ => rfl) c').does_code
    cases name with
    | none => exact h.meet e
    | some name => exact (h.meet e).call name e
  | hold guard c' =>
    exact (Effect.under _ (.runs (h.holdGuards [guard]) c') rfl).does_code
  | holdGenerator name d c' =>
    have hadded : Edited P (code w fs c) (w.addGenerator d).2 :=
      h.add (by simp [makes?, code, hP])
    exact (Effect.under _ (effect_nameHandle hadded name .unit) rfl).does_code
  | holdIterator name into k => exact (effect_holdIterator name into k).does_code
  | pull k =>
    simp only [grant]
    split
    · exact (Effect.under _ (.asks h rfl rfl) rfl).does_code
    · exact (Effect.runs h _).does_code
  | call => exact (Effect.under _ (.asks h rfl rfl) rfl).does_code
  | view v k =>
    simp only [grant]
    split
    · exact (Effect.runs h _).does_code
    · exact (effect_useView v k).does_code

/-! ### Answers -/

/-- No exception escapes with an answer to a frame that is no switch into a producer. -/
theorem Edited.answer (hf : ∀ g, f ≠ .driving g) : Edited P (answer w (f :: fs) a) w := by
  have h : Edited P (Machine.answer w (f :: fs) a) (credited (Machine.answer w (f :: fs) a)) :=
    .start
  unfold credited at h
  split at h
  · next hframes => exact absurd (List.cons.inj hframes).1 (hf _)
  · exact h

theorem name_leaveProducer : ((leaveProducer w g).generator g).name = (w.generator g).name := by
  rcases w.generator_modify_cases g g _ with h | h
  · rw [leaveProducer, h]
  · rw [leaveProducer, h]

theorem Edited.leaveProducer (h : Edited P m w) (hg : m.leaves? P = some g) :
    Edited P m (Machine.leaveProducer w g) :=
  h.alter (.leaves hg) (fun _ => rfl) fun _ => rfl

/-- The outcome of the producer goes into its slot, if that is empty. -/
theorem effect_deposit (h : Edited P m w) (hg : m.leaves? P = some g)
    (r : Except Exception Value) :
    Effect P m none fs (if (w.generator g).outcome.isSome then fault w fs .slotOccupied
      else task (w.modify g fun x => { x with outcome := some r }) fs (.terminated g)) := by
  split
  · exact .faults h _
  · exact .asks (h.alter (.leaves hg) (fun _ => rfl) fun _ => rfl) rfl rfl

theorem effect_endProducer (r : Except Exception Value) :
    Effect P (answer w (.driving g :: fs) (.outcome r)) none fs (endProducer w fs g r) := by
  cases r with
  | ok v => exact effect_deposit (Edited.start.leaveProducer rfl) rfl (.ok v)
  | error e =>
    have hleft : Edited P (answer w (.driving g :: fs) (.outcome (.error e)))
        { leaveProducer w g with
          ledger :=
            (leaveProducer w g).ledger.escape e ((leaveProducer w g).generator g).name } := by
      rw [name_leaveProducer]
      exact Edited.start.leaveProducer rfl
    exact effect_deposit hleft rfl (.error e)

theorem effect_finishClose (h : Edited P m w) (r : Except OpError (Progress Value Value)) :
    Effect P m y fs (finishClose w fs g r) := by
  rcases r with e | _ | _
  · cases e <;> exact .answers h _
  · exact .under _ (.asks (h.remark rfl fun _ => rfl) rfl rfl) rfl
  · exact .answers h _

theorem effect_finishNamedPull {it : String} (h : Edited P m w) (hit : m.iterator? = some it)
    (left : Nat) (items : List (Item ErrorReport)) (item : Item OpError) :
    Effect P m y fs (finishNamedPull w fs it g left items item) := by
  cases item with
  | value => exact effect_pullNamed h hit ..
  | failed | ended => exact .under _ (.asks h rfl rfl) rfl

theorem Effect.does_answer {m' : Machine C} (h : Effect P (answer w (f :: fs) a) f.ends? fs m') :
    Does P (answer w (f :: fs) a) m' :=
  ⟨f.ends?, fs, .top (.inl ⟨a, rfl⟩) rfl, h⟩

/-- The frame on top cannot take its answer. -/
theorem does_stuck (hf : ∀ g, f ≠ .driving g) (hends : f.ends? = none) :
    Does P (answer w (f :: fs) a) ⟨w, .stuck, f :: fs⟩ := by
  refine Effect.does_answer ?_
  rw [hends]
  exact .under f (.halts (.answer hf)) hends

theorem effect_finishPull {k : Item OpError → C} (r : Except OpError (Progress Value Value))
    (item : Item OpError) :
    Does P (answer w (.pulling g k :: fs) (.progress r)) (finishPull w fs g k item) := by
  have h : Edited P (answer w (.pulling g k :: fs) (.progress r)) w := .answer nofun
  simp only [finishPull]
  split
  · exact (Effect.runs h _).does_answer
  · exact ⟨none, _, .pulled rfl rfl, .under _ (.under _ (.asks h rfl rfl) rfl) rfl⟩
  · exact (Effect.halts h).does_answer

theorem effect_deliver (a : Answer) : Does P (answer w fs a) (deliver w a fs) := by
  rcases fs with _ | ⟨f, fs⟩
  · refine ⟨none, [], .all nofun, .answers ?_ a⟩
    cases a <;> exact .start
  by_cases hf : ∃ g, f = .driving g
  · obtain ⟨g, rfl⟩ := hf
    cases a with
    | outcome r => exact (effect_endProducer r).does_answer
    | _ => exact Effect.does_answer (.under _ (.halts .start) rfl)
  have h : Edited P (answer w (f :: fs) a) w := .answer fun g heq => hf ⟨g, heq⟩
  cases f with
  | driving g => exact absurd ⟨g, rfl⟩ hf
  | scope | closure | holding => exact Effect.does_answer (.under _ (.asks h rfl rfl) rfl)
  | keeping kept => exact Effect.does_answer (.answers h kept)
  | catching => exact Effect.does_answer (.answers h a)
  | dismantling => exact Effect.does_answer (.answers h .unit)
  | unwinding u => exact Effect.does_answer (.passes h (.again rfl rfl))
  | resuming c => exact Effect.does_answer (.runs h c)
  | entering s c => exact Effect.does_answer (.under (.scope s) (.runs h c) rfl)
  | destroying g =>
    refine Effect.does_answer (.goes ?_ rfl)
    exact h.alter (.leaves rfl) (fun _ => rfl) fun _ => rfl
  | emptying g => exact Effect.does_answer (.goes h rfl)
  | violating g =>
    refine Effect.does_answer ?_
    simp only [deliver]
    split
    · exact .answers h _
    · next hpanicking =>
      exact .raises h (.ignored _ (Bool.eq_false_of_not_eq_true hpanicking))
  | endingNamed it left items item =>
    exact Effect.does_answer (effect_pullNamed (h.reportItem item) rfl ..)
  | switching =>
    cases a with
    | outcome => exact Effect.does_answer (effect_nameFiber h ..)
    | _ => exact does_stuck nofun rfl
  | calling =>
    cases a with
    | reply => exact Effect.does_answer (.runs (h.tell (fun _ => rfl) fun _ => rfl) _)
    | _ => exact does_stuck nofun rfl
  | pulling =>
    cases a with
    | progress r => exact effect_finishPull r _
    | _ => exact does_stuck nofun rfl
  | pullingNamed =>
    cases a with
    | progress => exact Effect.does_answer (effect_finishNamedPull h rfl ..)
    | _ => exact does_stuck nofun rfl
  | viewing g k =>
    cases a with
    | progress r =>
      refine Effect.does_answer (.under (.resuming _) (.asks ?_ rfl rfl) rfl)
      exact (h.reportProgress r).tell (fun _ => rfl) fun _ => rfl
    | closed r =>
      refine Effect.does_answer (.under (.resuming _) (.asks ?_ rfl rfl) rfl)
      exact (h.reportClosed r).tell (fun _ => rfl) fun _ => rfl
    | _ => exact does_stuck nofun rfl
  | reporting =>
    cases a with
    | progress r => exact Effect.does_answer (.answers (h.reportProgress r) _)
    | closed r => exact Effect.does_answer (.answers (h.reportClosed r) _)
    | _ => exact does_stuck nofun rfl
  | closing =>
    cases a with
    | progress r => exact Effect.does_answer (effect_finishClose h r)
    | _ => exact does_stuck nofun rfl
  | dropping g =>
    cases a with
    | closed r =>
      cases r with
      | ok => exact Effect.does_answer (.asks h rfl rfl)
      | error e => exact Effect.does_answer (.asks (h.remark rfl fun _ => rfl) rfl rfl)
    | _ => exact does_stuck nofun rfl
  | cleaning =>
    cases a with
    | reply =>
      exact Effect.does_answer (effect_clean (h.tell (fun _ => rfl) fun _ => rfl) ..)
    | _ => exact does_stuck nofun rfl
  | onRelease =>
    cases a with
    | reply =>
      exact Effect.does_answer (effect_releaseStep (h.tell (fun _ => rfl) fun _ => rfl) ..)
    | _ => exact does_stuck nofun rfl
  | owningHandles | owningFibers => cases a <;> exact does_stuck nofun rfl

/-! ### Panics -/

theorem effect_leave (f : Frame C) (u : Unwinding) :
    Effect P ⟨w, .unwind u, f :: fs⟩ f.ends? fs (leave w u (f :: fs)) := by
  have h : Edited P ⟨w, .unwind u, f :: fs⟩ w := .start
  have hpasses {y : Option GeneratorId} {w' : World C}
      (h' : Edited P ⟨w, .unwind u, f :: fs⟩ w') :
      Effect P ⟨w, .unwind u, f :: fs⟩ y fs ⟨w', .unwind u, fs⟩ := .passes h' (.still rfl)
  cases f with
  | scope | closure | holding | viewing | dropping =>
    exact .under (.unwinding u) (.asks h rfl rfl) rfl
  | driving g => exact hpasses (h.leaveProducer rfl)
  | unwinding => exact ⟨h, List.suffix_refl fs, .made rfl, nofun, nofun⟩
  | owningHandles gs =>
    cases gs with
    | nil => exact hpasses h
    | cons => exact .under _ (.under _ (.asks h rfl rfl) rfl) rfl
  | owningFibers _ fibers =>
    cases fibers with
    | nil => exact hpasses h
    | cons => exact .under _ (.under _ (.asks h rfl rfl) rfl) rfl
  | pullingNamed | endingNamed =>
    exact .under (.unwinding u) (effect_nameIterator h rfl ..) rfl
  | switching => exact .under (.unwinding u) (effect_nameFiber h ..) rfl
  | destroying g =>
    cases u with
    | panic => exact hpasses (h.leaveProducer rfl)
    | cancel => exact .goes (h.leaveProducer rfl) rfl
  | dismantling =>
    cases u with
    | panic => exact hpasses h
    | cancel => exact .answers h .unit
  | catching a =>
    cases u with
    | panic => exact .answers h a
    | cancel => exact hpasses h
  | calling catchesPanics =>
    cases catchesPanics with
    | false => exact hpasses h
    | true =>
      cases u with
      | panic => exact .runs (h.tell (fun _ => rfl) fun _ => rfl) _
      | cancel => exact hpasses h
  | cleaning =>
    cases u with
    | panic => exact effect_clean (h.tell (fun _ => rfl) fun _ => rfl) ..
    | cancel => exact hpasses h
  | onRelease =>
    cases u with
    | panic => exact effect_releaseStep (h.tell (fun _ => rfl) fun _ => rfl) ..
    | cancel => exact hpasses h
  | _ => cases u <;> exact hpasses h

/-- Every move has its effect on top of the frames that it leaves where they are. -/
theorem effect_next (P : Program C) (m : Machine C) : Does P m (m.next P) := by
  obtain ⟨w, control, fs⟩ := m
  cases control with
  | code c => exact effect_grant c
  | task t => exact ⟨t.ends?, fs, .task rfl, effect_perform t⟩
  | answer a => exact effect_deliver a
  | unwind u =>
    obtain _ | ⟨f, fs⟩ := fs
    · exact ⟨none, [], .all nofun, .passes .start (.still rfl)⟩
    · exact ⟨f.ends?, fs, .top (.inr ⟨u, rfl⟩) rfl, effect_leave f u⟩
  | aborted => exact ⟨none, fs, .all nofun, .start, List.suffix_refl fs, .made rfl, nofun, nofun⟩
  | stuck => exact ⟨none, fs, .all nofun, .halts .start⟩

/-- The world that a move leaves is edited as it may be. -/
theorem edited_next (P : Program C) (m : Machine C) : Edited P m (m.next P).world := by
  obtain ⟨y, fs, -, heffect⟩ := effect_next P m
  exact heffect.edited

end Coroutine.Machine

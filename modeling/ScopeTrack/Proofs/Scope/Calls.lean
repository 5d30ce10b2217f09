/-
# Chains under arbitrary calls

A chain is used by four calls, in any order and with any names and spans.  A
call that fails, or that finds nothing to close, leaves the chain as it is
(`Chain.call`).  All that a call can do is said once (`Chain.Effect`), and what
every effect keeps, every sequence of calls keeps (`after_induction`).

Whatever the calls, the chain they lead to fits them (`after_coherent`): it has
one scope, open or closed, for each call that opened one, and the global one;
the open scopes stand one inside the other as they were entered, the global one
outermost; and the global one is archived last, when nothing is open any more.
The archive only grows at its end (`archive_prefix_after`).

The variables of a scope are those declared while it was the innermost one.  To
keep all declarations and to drop the repetitions at the end gives the same
chain (`after_eq_distinct`).
-/

import ScopeTrack.Scope.Chain

namespace ScopeTrack
namespace Scope

/-- A call on a chain. -/
inductive Call where
  | enter (function : String) (owner : Span)
  | leave (owner : Span)
  | declare (name : String)
  | close
deriving DecidableEq, Repr

namespace Chain

/-- The chain after a call. -/
def call (c : Chain) : Call → Chain
  | .enter function owner => (c.enter function owner).toOption.getD c
  | .leave owner => ((c.leave? owner).map Prod.snd).getD c
  | .declare name => (c.declare name).toOption.getD c
  | .close => (c.closeGlobal?.map Prod.snd).getD c

/-- The chain after some calls. -/
def after (c : Chain) (calls : List Call) : Chain :=
  calls.foldl call c

theorem after_append (c : Chain) (calls more : List Call) :
    c.after (calls ++ more) = (c.after calls).after more :=
  List.foldl_append

/-- Whether a call opens a scope. -/
def opens (c : Chain) : Call → Bool
  | .enter function owner => (c.enter function owner).isOk
  | _ => false

/-- The number of calls that open a scope. -/
def openings (c : Chain) : List Call → Nat
  | [] => 0
  | call :: calls => (c.opens call).toNat + (c.call call).openings calls

/-- The scopes that are opened add up, those of the second group counted from where the
first one led. -/
theorem openings_append (c : Chain) (calls more : List Call) :
    c.openings (calls ++ more) = c.openings calls + (c.after calls).openings more := by
  induction calls generalizing c with
  | nil => exact (Nat.zero_add _).symm
  | cons call calls ih =>
      rw [List.cons_append, openings, openings, ih, Nat.add_assoc]
      rfl

/-! ## What a call does -/

section

variable {c : Chain} {frame : Frame} {outer : List Frame}

/-- **Once everything is closed, no call does anything.**  Each of the four asks for an
innermost scope first. -/
theorem call_of_closed (h : c.frames = []) (call : Call) : c.call call = c := by
  cases call with
  | enter function owner => simp [Chain.call, enter, current, h, bind, Except.bind, Except.toOption]
  | leave owner => simp [Chain.call, leave?, h]
  | declare name => simp [Chain.call, declare, current, h, bind, Except.bind, Except.toOption]
  | close => simp [Chain.call, closeGlobal?, h]

theorem opens_of_closed (h : c.frames = []) (call : Call) : c.opens call = false := by
  cases call with
  | enter function owner =>
      simp [opens, enter, current, h, bind, Except.bind, Except.isOk, Except.toBool]
  | _ => rfl

/-- A scope is opened inside the innermost one, whose name stands in front of the
function's, with no variables yet. -/
theorem enter_of_frames (h : c.frames = frame :: outer) (function : String) (owner : Span) :
    c.enter function owner =
      .ok ⟨⟨childName frame.name function, [], some owner⟩ :: frame :: outer, c.archive⟩ := by
  simp [enter, current, h, bind, Except.bind, pure, Except.pure]

/-- A variable is declared in the innermost scope, and the others stay as they are. -/
theorem call_declare (h : c.frames = frame :: outer) (name : String) :
    c.call (.declare name) = ⟨frame.declare name :: outer, c.archive⟩ := by
  simp [call, declare, current, setCurrent, h, bind, Except.bind, Except.toOption]

/-- The innermost scope is archived if the function that is left opened it; otherwise
nothing happens. -/
theorem call_leave (h : c.frames = frame :: outer) (owner : Span) :
    c.call (.leave owner) =
      if frame.owner = some owner then ⟨outer, c.archive ++ [frame]⟩ else c := by
  by_cases howner : frame.owner = some owner <;> simp [call, leave?, h, howner]

/-- The global scope is closed if it is open alone; otherwise nothing happens. -/
theorem call_close (h : c.frames = frame :: outer) :
    c.call .close = if outer = [] then ⟨[], c.archive ++ [frame]⟩ else c := by
  cases outer <;> simp [call, closeGlobal?, h]

/-- A chain with one scope less is another chain, whatever its archive. -/
theorem ne_of_frames (h : c.frames = frame :: outer) (archive : List Frame) :
    (⟨outer, archive⟩ : Chain) ≠ c := by
  intro heq
  rw [← heq] at h
  exact List.cons_ne_self _ _ h.symm

end

/-- A function closes nothing just if its leaving changes nothing. -/
theorem leave?_eq_none_iff (c : Chain) (owner : Span) :
    c.leave? owner = none ↔ c.call (.leave owner) = c := by
  cases hframes : c.frames with
  | nil => simp [call_of_closed hframes, leave?, hframes]
  | cons frame outer =>
      rw [call_leave hframes]
      by_cases howner : frame.owner = some owner
      · simp [leave?, hframes, howner, ne_of_frames hframes]
      · simp [leave?, hframes, howner]

/-- There is nothing to close at the end just if closing changes nothing. -/
theorem closeGlobal?_eq_none_iff (c : Chain) : c.closeGlobal? = none ↔ c.call .close = c := by
  cases hframes : c.frames with
  | nil => simp [call_of_closed hframes, closeGlobal?, hframes]
  | cons frame outer =>
      rw [call_close hframes]
      cases outer with
      | nil => simp [closeGlobal?, hframes, ne_of_frames hframes]
      | cons next outer => simp [closeGlobal?, hframes]

/-- **What a call can do**: nothing, unless it opens a scope; open one; declare a
variable in the innermost one; or close that one, if a function owns it or if it
is the only one. -/
inductive Effect (c : Chain) : Call → Chain → Prop where
  | nothing {call : Call} (h : c.opens call = false) : Effect c call c
  | entered {frame : Frame} {outer : List Frame} (h : c.frames = frame :: outer)
      (function : String) (owner : Span) (hopens : c.opens (.enter function owner) = true) :
      Effect c (.enter function owner)
        ⟨⟨childName frame.name function, [], some owner⟩ :: frame :: outer, c.archive⟩
  | declared {frame : Frame} {outer : List Frame} (h : c.frames = frame :: outer)
      (name : String) : Effect c (.declare name) ⟨frame.declare name :: outer, c.archive⟩
  | closed {frame : Frame} {outer : List Frame} (h : c.frames = frame :: outer)
      (hlast : frame.owner ≠ none ∨ outer = []) {call : Call} (hopens : c.opens call = false) :
      Effect c call ⟨outer, c.archive ++ [frame]⟩

/-- **Every call has one of these effects**, and nothing else happens.  By cases on
whether a scope is open, and then on the call. -/
theorem effect_call (c : Chain) (call : Call) : Effect c call (c.call call) := by
  cases hframes : c.frames with
  | nil =>
      rw [call_of_closed hframes]
      exact .nothing (opens_of_closed hframes call)
  | cons frame outer =>
      cases call with
      | enter function owner =>
          have henter := enter_of_frames hframes function owner
          have hopens : c.opens (.enter function owner) = true := by
            rw [opens, henter]
            rfl
          rw [Chain.call, henter]
          exact .entered hframes function owner hopens
      | declare name =>
          rw [call_declare hframes]
          exact .declared hframes name
      -- Both ways of closing either find the scope that they ask for or do nothing.
      | leave owner =>
          rw [call_leave hframes]
          split
          · next howner =>
              have howned : frame.owner ≠ none := by
                rw [howner]
                exact Option.some_ne_none owner
              exact .closed hframes (.inl howned) rfl
          · exact .nothing rfl
      | close =>
          rw [call_close hframes]
          split
          · next houter =>
              rw [houter] at hframes
              exact .closed hframes (.inr rfl) rfl
          · exact .nothing rfl

/-- **What every effect keeps, all calls keep.**  -/
theorem after_induction {P : List Call → Chain → Prop} (start : P [] new)
    (step : ∀ {calls : List Call} {call : Call} {c' : Chain}, P calls (new.after calls) →
      Effect (new.after calls) call c' → P (calls ++ [call]) c') (calls : List Call) :
    P calls (new.after calls) := by
  suffices h : ∀ more calls, P calls (new.after calls) →
      P (calls ++ more) (new.after (calls ++ more)) from h calls [] start
  intro more
  induction more with
  | nil =>
      intro calls h
      rwa [List.append_nil]
  | cons call more ih =>
      intro calls h
      rw [List.append_cons]
      apply ih
      rw [after_append]
      exact step h (effect_call _ call)

/-! ## Scopes and the calls that made them -/

/-- A scope was entered by one of the calls, when the scopes around it were
open: its name is the one of the innermost of them with the function's behind. -/
def EnteredIn (calls : List Call) (frame : Frame) (outer : List Frame) : Prop :=
  ∃ before function owner later, calls = before ++ .enter function owner :: later ∧
    (new.after before).frames.map Frame.name = outer.map Frame.name ∧
    frame.owner = some owner ∧ ∃ parent ∈ outer.head?, frame.name = childName parent.name function

/-- What was entered by some calls was entered by these and more. -/
theorem EnteredIn.mono {calls : List Call} {frame : Frame} {outer : List Frame}
    (h : EnteredIn calls frame outer) (more : List Call) :
    EnteredIn (calls ++ more) frame outer := by
  obtain ⟨before, function, owner, later, rfl, hrest⟩ := h
  exact ⟨before, function, owner, later ++ more, by simp, hrest⟩

/-- The open scopes stand one inside the other as the calls entered them; the
outermost one is global, and only it belongs to no function. -/
inductive Nested (calls : List Call) : List Frame → Prop where
  | ground {frame : Frame} (hname : frame.name = globalName) (howner : frame.owner = none) :
      Nested calls [frame]
  | inner {frame : Frame} {outer : List Frame} (rest : Nested calls outer)
      (entered : EnteredIn calls frame outer) : Nested calls (frame :: outer)

namespace Nested

variable {calls : List Call} {frames : List Frame}

theorem mono (h : Nested calls frames) (more : List Call) : Nested (calls ++ more) frames := by
  induction h with
  | ground hname howner => exact .ground hname howner
  | inner _ entered ih => exact .inner ih (entered.mono more)

theorem ne_nil (h : Nested calls frames) : frames ≠ [] := by
  cases h <;> exact List.cons_ne_nil _ _

/-- Declaring changes neither the name nor the owner of a scope. -/
theorem declare {frame : Frame} {outer : List Frame} (h : Nested calls (frame :: outer))
    (name : String) : Nested calls (frame.declare name :: outer) := by
  have hname : (frame.declare name).name = frame.name := by
    unfold Frame.declare
    split <;> rfl
  have howner : (frame.declare name).owner = frame.owner := by
    unfold Frame.declare
    split <;> rfl
  cases h with
  | ground hground hnone => exact .ground (hname.trans hground) (howner.trans hnone)
  | inner rest entered =>
      obtain ⟨before, function, owner, later, hcalls, hbefore, hentered, parent, hparent, hpath⟩ :=
        entered
      exact .inner rest ⟨before, function, owner, later, hcalls, hbefore, howner.trans hentered,
        parent, hparent, hname.trans hpath⟩

/-- Without its innermost scope, what is left open stands as before, as long as there is
any. -/
theorem tail {frame : Frame} {outer : List Frame} (h : Nested calls (frame :: outer))
    (houter : outer ≠ []) : Nested calls outer := by
  cases h with
  | ground => exact absurd rfl houter
  | inner rest _ => exact rest

/-- The scope without an owner is the outermost one, so it is the innermost one just if
it is alone. -/
theorem owner_eq_none_iff {frame : Frame} {outer : List Frame}
    (h : Nested calls (frame :: outer)) : frame.owner = none ↔ outer = [] := by
  cases h with
  | ground _ howner => exact ⟨fun _ => rfl, fun _ => howner⟩
  | inner rest entered =>
      obtain ⟨_, _, owner, _, _, _, howner, _⟩ := entered
      simp [howner, rest.ne_nil]

/-- The outermost scope is global, and the others belong to functions. -/
theorem exists_ground (h : Nested calls frames) :
    ∃ inner ground, frames = inner ++ [ground] ∧ ground.name = globalName ∧
      ground.owner = none ∧ ∀ frame ∈ inner, frame.owner ≠ none := by
  induction h with
  | @ground frame hname howner => exact ⟨[], frame, rfl, hname, howner, nofun⟩
  | @inner frame outer rest entered ih =>
      obtain ⟨inner, ground, rfl, hname, howner, hinner⟩ := ih
      refine ⟨frame :: inner, ground, rfl, hname, howner, ?_⟩
      rw [List.forall_mem_cons]
      refine ⟨fun hnone => ?_, hinner⟩
      exact rest.ne_nil ((Nested.inner rest entered).owner_eq_none_iff.1 hnone)

/-- Each scope but the outermost was entered inside those around it. -/
theorem enteredIn (h : Nested calls frames) {inner outer : List Frame} {frame : Frame}
    (hframes : frames = inner ++ frame :: outer) (houter : outer ≠ []) :
    EnteredIn calls frame outer := by
  induction h generalizing inner with
  | ground =>
      have hlength := congrArg List.length hframes
      simp only [List.length_append, List.length_cons, List.length_nil] at hlength
      exact absurd (List.length_eq_zero_iff.1 (by omega)) houter
  | inner rest entered ih =>
      cases inner with
      | nil =>
          obtain ⟨rfl, rfl⟩ := List.cons.inj hframes
          exact entered
      | cons first inner => exact ih (List.cons.inj hframes).2

end Nested

/-- A chain fits the calls that led to it. -/
structure Coherent (calls : List Call) (c : Chain) : Prop where
  count : c.depth + c.archive.length = 1 + new.openings calls
  opened : c.frames ≠ [] → Nested calls c.frames ∧ ∀ frame ∈ c.archive, frame.owner ≠ none
  closed : c.frames = [] → ∃ earlier last, c.archive = earlier ++ [last] ∧
    last.owner = none ∧ ∀ frame ∈ earlier, frame.owner ≠ none

/-- **Each effect keeps the chain fitting its calls.**  An opened scope counts on both
sides; a declaration changes neither names nor owners; a closed scope goes from the open
ones to the archive, and if it was the last it is the global one, as all others have
owners. -/
theorem Coherent.effect {calls : List Call} {call : Call} {c' : Chain}
    (h : Coherent calls (new.after calls)) (effect : Effect (new.after calls) call c') :
    Coherent (calls ++ [call]) c' := by
  have hopenings : new.openings (calls ++ [call]) =
      new.openings calls + ((new.after calls).opens call).toNat := by
    rw [openings_append]
    rfl
  have hcount := h.count
  cases effect with
  | nothing hopens =>
      refine ⟨?_, fun hne => ?_, h.closed⟩
      · rw [hopenings, hopens]
        exact hcount
      · exact ⟨(h.opened hne).1.mono _, (h.opened hne).2⟩
  -- One scope more is open, and one call more has opened one.
  | entered hframes function owner hopens =>
      obtain ⟨hnested, harchive⟩ := h.opened (hframes ▸ List.cons_ne_nil _ _)
      refine ⟨?_, fun _ => ⟨.inner (hframes ▸ hnested.mono _) ?_, harchive⟩, nofun⟩
      · rw [depth, hframes] at hcount
        rw [hopenings, hopens]
        simp only [depth, List.length_cons, Bool.toNat_true] at hcount ⊢
        omega
      · exact ⟨calls, function, owner, [], rfl, congrArg (List.map Frame.name) hframes, rfl, _, rfl,
          rfl⟩
  | declared hframes name =>
      obtain ⟨hnested, harchive⟩ := h.opened (hframes ▸ List.cons_ne_nil _ _)
      refine ⟨?_, fun _ => ⟨?_, harchive⟩, nofun⟩
      · rw [hopenings]
        rw [depth, hframes] at hcount
        exact hcount
      · rw [hframes] at hnested
        exact (hnested.declare name).mono _
  -- One scope goes from the open ones to the archive, so their number stays.
  | @closed frame outer hframes hlast _ hopens =>
      obtain ⟨hnested, harchive⟩ := h.opened (hframes ▸ List.cons_ne_nil _ _)
      rw [hframes] at hnested
      refine ⟨?_, fun hne => ⟨(hnested.tail hne).mono _, ?_⟩, fun hnil => ?_⟩
      · rw [hopenings, hopens]
        rw [depth, hframes] at hcount
        simp only [depth, List.length_cons, List.length_append, List.length_nil,
          Bool.toNat_false] at hcount ⊢
        omega
      · intro other hother
        rcases List.mem_append.1 hother with hother | hother
        · exact harchive other hother
        · obtain rfl := List.mem_singleton.1 hother
          exact hlast.resolve_right hne
      · exact ⟨_, frame, rfl, hnested.owner_eq_none_iff.2 hnil, harchive⟩

/-- **The chain fits the calls that led to it**, whatever they are. -/
theorem after_coherent (calls : List Call) : Coherent calls (new.after calls) := by
  refine after_induction ⟨rfl, fun _ => ⟨?_, nofun⟩, nofun⟩ Coherent.effect calls
  exact .ground rfl rfl

/-! ## The archive -/

/-- A call archives one scope at most, and puts it last. -/
theorem archive_prefix_call (c : Chain) (call : Call) : c.archive <+: (c.call call).archive := by
  have effect := effect_call c call
  generalize c.call call = c' at effect
  cases effect with
  | closed => exact List.prefix_append _ _
  | _ => exact List.prefix_refl _

/-- The archive only grows, and only at its end. -/
theorem archive_prefix_after (c : Chain) (calls : List Call) :
    c.archive <+: (c.after calls).archive := by
  induction calls generalizing c with
  | nil => exact List.prefix_refl _
  | cons call calls ih => exact (archive_prefix_call c call).trans (ih (c.call call))

/-- After everything is closed, calls lead nowhere. -/
theorem after_of_closed {c : Chain} (h : c.frames = []) (calls : List Call) :
    c.after calls = c := by
  induction calls with
  | nil => rfl
  | cons call calls ih =>
      rw [after, List.foldl_cons, call_of_closed h]
      exact ih

end Chain

/-! ## Declarations -/

/-- A scope without the repeated declarations. -/
def Frame.distinct (f : Frame) : Frame :=
  { f with declared := f.declared.eraseDups }

/-- Dropping a repetition later is dropping it at once. -/
theorem Frame.distinct_push (f : Frame) (name : String) :
    Frame.distinct { f with declared := f.declared ++ [name] } = f.distinct.declare name := by
  by_cases h : name ∈ f.declared
  · simp [distinct, declare, List.eraseDups_append, List.removeAll, h]
  · simp [distinct, declare, List.eraseDups_append, List.removeAll, List.eraseDups_cons, h]

namespace Chain

/-- A call that keeps every declaration, also a repeated one. -/
def callKeeping (c : Chain) : Call → Chain
  | .enter function owner => c.call (.enter function owner)
  | .leave owner => c.call (.leave owner)
  | .declare name =>
    match c.frames with
    | [] => c
    | frame :: outer =>
      { c with frames := { frame with declared := frame.declared ++ [name] } :: outer }
  | .close => c.call .close

/-- The chain after some calls, with all declarations. -/
def afterKeeping (c : Chain) (calls : List Call) : Chain :=
  calls.foldl callKeeping c

/-- A chain without the repeated declarations. -/
def distinct (c : Chain) : Chain :=
  ⟨c.frames.map Frame.distinct, c.archive.map Frame.distinct⟩

/-- **One call, with or without repetitions.**  Dropping the repetitions after a call
that keeps them is the call on the chain without them.  Only declaring makes a
difference, and there it is `Frame.distinct_push`. -/
theorem distinct_callKeeping (c : Chain) (call : Call) :
    (c.callKeeping call).distinct = c.distinct.call call := by
  cases hframes : c.frames with
  | nil =>
      have hclosed : c.distinct.frames = [] := by rw [distinct, hframes, List.map_nil]
      have hkept : c.callKeeping call = c := by
        cases call with
        | enter function owner => exact call_of_closed hframes (.enter function owner)
        | leave owner => exact call_of_closed hframes (.leave owner)
        | declare name => rw [callKeeping, hframes]
        | close => exact call_of_closed hframes .close
      rw [hkept, call_of_closed hclosed]
  | cons frame outer =>
      have hopen : c.distinct.frames = frame.distinct :: outer.map Frame.distinct := by
        rw [distinct, hframes, List.map_cons]
      cases call with
      | enter function owner =>
          rw [callKeeping, Chain.call, Chain.call, enter_of_frames hframes, enter_of_frames hopen]
          rfl
      | declare name =>
          rw [call_declare hopen, ← Frame.distinct_push]
          simp [callKeeping, hframes, distinct]
      | leave owner =>
          rw [callKeeping, call_leave hframes, call_leave hopen]
          by_cases howner : frame.owner = some owner <;> simp [distinct, Frame.distinct, howner]
      | close =>
          rw [callKeeping, call_close hframes, call_close hopen]
          by_cases houter : outer = [] <;> simp [distinct, houter]

/-- **Each variable is declared once, where it was first declared.**  -/
theorem after_eq_distinct (calls : List Call) :
    new.after calls = (new.afterKeeping calls).distinct := by
  suffices h : ∀ c : Chain, c.distinct.after calls = (c.afterKeeping calls).distinct from h new
  induction calls with
  | nil => exact fun _ => rfl
  | cons call calls ih =>
      intro c
      rw [after, List.foldl_cons, ← distinct_callKeeping]
      exact ih (c.callKeeping call)

/-- No scope declares a variable twice. -/
theorem nodup_declared_after (calls : List Call) :
    ∀ frame ∈ (new.after calls).frames ++ (new.after calls).archive, frame.declared.Nodup := by
  apply after_induction (P := fun _ c => ∀ frame ∈ c.frames ++ c.archive, frame.declared.Nodup)
  · simp [new, Frame.global]
  · intro calls call c' h effect
    cases effect with
    | nothing => exact h
    | entered hframes =>
        rw [hframes] at h
        exact List.forall_mem_cons.2 ⟨List.nodup_nil, h⟩
    | declared hframes name =>
        rw [hframes] at h
        obtain ⟨hframe, hothers⟩ := List.forall_mem_cons.1 h
        exact List.forall_mem_cons.2 ⟨Frame.nodup_declare name hframe, hothers⟩
    | closed hframes =>
        intro frame hframe
        apply h
        rw [hframes]
        rcases List.mem_append.1 hframe with hframe | hframe
        · exact List.mem_append_left _ (List.mem_cons_of_mem _ hframe)
        · rcases List.mem_append.1 hframe with hframe | hframe
          · exact List.mem_append_right _ hframe
          · exact List.mem_append_left _ (List.mem_cons.2 (.inl (List.mem_singleton.1 hframe)))

/-- **Chains under arbitrary calls.**  However a chain is used:

* there are as many scopes, open and closed, as there were calls that opened
  one, and the global one;
* while a scope is open, the outermost one is the global one, which alone has no
  owner; each other one was entered, by one of the calls, inside those around it,
  and is named for that; and all closed ones have owners;
* when none is open, the global one has been archived, once and last;
* what is archived stays, and what comes is put behind it;
* closing changes nothing just if it closes nothing;
* each scope has the variables declared in it, in the order in which they were
  declared first, and none twice;
* after the last scope has been closed, no call changes anything. -/
theorem chain_fits_calls (calls : List Call) :
    (new.after calls).depth + (new.after calls).archive.length = 1 + new.openings calls ∧
      ((new.after calls).frames ≠ [] →
        (∃ inner ground, (new.after calls).frames = inner ++ [ground] ∧
          ground.name = globalName ∧ ground.owner = none ∧ ∀ frame ∈ inner, frame.owner ≠ none) ∧
        (∀ inner frame outer, (new.after calls).frames = inner ++ frame :: outer → outer ≠ [] →
          EnteredIn calls frame outer) ∧
        ∀ frame ∈ (new.after calls).archive, frame.owner ≠ none) ∧
      ((new.after calls).frames = [] →
        ∃ earlier last, (new.after calls).archive = earlier ++ [last] ∧
          last.owner = none ∧ ∀ frame ∈ earlier, frame.owner ≠ none) ∧
      (∀ more, (new.after calls).archive <+: (new.after (calls ++ more)).archive) ∧
      (∀ owner, (new.after calls).leave? owner = none ↔
        new.after (calls ++ [.leave owner]) = new.after calls) ∧
      ((new.after calls).closeGlobal? = none ↔
        new.after (calls ++ [.close]) = new.after calls) ∧
      new.after calls = (new.afterKeeping calls).distinct ∧
      (∀ frame ∈ (new.after calls).frames ++ (new.after calls).archive, frame.declared.Nodup) ∧
      ((new.after calls).frames = [] →
        ∀ more, new.after (calls ++ more) = new.after calls) := by
  have coherent := after_coherent calls
  refine ⟨coherent.count, fun hne => ?_, coherent.closed, fun more => ?_, fun owner => ?_, ?_,
    after_eq_distinct calls, nodup_declared_after calls, fun hnil more => ?_⟩
  · obtain ⟨hnested, harchive⟩ := coherent.opened hne
    exact ⟨hnested.exists_ground, fun _ _ _ => hnested.enteredIn, harchive⟩
  · rw [after_append]
    exact archive_prefix_after _ more
  · rw [after_append]
    exact leave?_eq_none_iff _ owner
  · rw [after_append]
    exact closeGlobal?_eq_none_iff _
  · rw [after_append]
    exact after_of_closed hnil more

end Chain
end Scope
end ScopeTrack

import Mathlib
import Skiff.Concurrent.Cancel

/-!
# What cancelling reaches

Tokens are made, given children, detached and cancelled one step after the other. Cancelling a token
reaches those that were made from it through children, as long as none of the tokens on the way has
been detached before. Nothing else is cancelled, and nothing is ever cancelled no more.
-/

namespace Skiff

open List Array Option Nat

inductive TokenStep where
  | add
  | child (parent : Nat)
  | detach (id : Nat)
  | cancel (id : Nat)
  deriving DecidableEq, Repr

/-- The token, cancelled if it was before or if a condition holds. -/
def CancelToken.cancelIf (token : CancelToken) (holds : Bool) : CancelToken :=
  { token with cancelled := token.cancelled || holds }

namespace CancelTokens

/-- Only tokens that are there have children. -/
def step (set : CancelTokens) : TokenStep → CancelTokens
  | .add => set.add.1
  | .child parent => if parent < set.tokens.size then (set.child parent).1 else set
  | .detach id => set.detach id
  | .cancel id => set.cancel id

/-- The tokens after a number of steps. -/
def after (set : CancelTokens) (steps : List TokenStep) : CancelTokens := steps.foldl step set

def parent? (set : CancelTokens) (id : Nat) : Option Nat := set.tokens[id]?.bind (·.parent)

/-- A token was made from another one through children. -/
inductive Descends (set : CancelTokens) (ancestor : Nat) : Nat → Prop where
  | self (made : ancestor < set.tokens.size) : Descends set ancestor ancestor
  | child {id parent : Nat} (link : set.parent? id = some parent)
      (above : Descends set ancestor parent) : Descends set ancestor id

/-- A token was made from another one through children, and every token on the way that was there at
an earlier time heard its parent then. -/
inductive Reached (earlier set : CancelTokens) (ancestor : Nat) : Nat → Prop where
  | self (made : ancestor < earlier.tokens.size) : Reached earlier set ancestor ancestor
  | child {id parent : Nat} (link : set.parent? id = some parent)
      (heard : ∀ token, earlier.tokens[id]? = some token → token.attached = true)
      (above : Reached earlier set ancestor parent) : Reached earlier set ancestor id

/-! ## Single steps -/

variable {set set' earlier : CancelTokens} {id parent place ancestor : Nat} {token : CancelToken}

theorem isCancelled_iff :
    set.isCancelled id = true ↔ ∃ token, set.tokens[id]? = some token ∧ token.cancelled = true := by
  unfold isCancelled
  cases set.tokens[id]? <;> simp

theorem parent?_eq_some :
    set.parent? id = some parent ↔
      ∃ token, set.tokens[id]? = some token ∧ token.parent = some parent := by
  simp [parent?, bind_eq_some_iff]

theorem lt_of_parent? (link : set.parent? id = some parent) : id < set.tokens.size := by
  obtain ⟨token, made, -⟩ := parent?_eq_some.1 link
  exact (Array.getElem?_eq_some_iff.1 made).1

/-- Tokens that come one after the other, each of which hears those before it. -/
def hearAll (before : Array CancelToken) (tokens : List CancelToken) : Array CancelToken :=
  tokens.foldl (fun before token =>
    before.push (if hears before token then { token with cancelled := true } else token)) before

theorem hearAll_snoc (tokens : List CancelToken) (token : CancelToken) :
    hearAll #[] (tokens ++ [token]) = (hearAll #[] tokens).push
      (if hears (hearAll #[] tokens) token then { token with cancelled := true } else token) :=
  foldl_append

theorem size_hearAll (tokens : List CancelToken) : (hearAll #[] tokens).size = tokens.length := by
  induction tokens using reverseRecOn with
  | nil => rfl
  | append_singleton tokens token ih =>
    rw [hearAll_snoc, size_push, ih, length_append, length_singleton]

/-- A token hears those before it, which do not change any more. -/
theorem getElem?_hearAll (tokens : List CancelToken) (place : Nat) :
    (hearAll #[] tokens)[place]? = tokens[place]?.map fun token =>
      if hears ((hearAll #[] tokens).extract 0 place) token
      then { token with cancelled := true } else token := by
  induction tokens using reverseRecOn with
  | nil => simp [hearAll]
  | append_singleton tokens token ih =>
    have size := size_hearAll tokens
    rw [hearAll_snoc, getElem?_push]
    split
    next last => simp [last, size]
    next other =>
      by_cases inside : place < tokens.length
      · rw [ih, List.getElem?_append_left inside, extract_push_of_le (by omega)]
      · rw [Array.getElem?_eq_none (by omega), List.getElem?_eq_none (by simp; omega)]
        rfl

/-- Tokens as steps leave them: parents are older than their children, and no token hears a parent
that is cancelled without being cancelled itself. -/
structure Orderly (set : CancelTokens) : Prop where
  older {id parent : Nat} : set.parent? id = some parent → parent < id
  heard {id parent : Nat} {token : CancelToken} : set.tokens[id]? = some token →
    token.attached = true → token.parent = some parent → set.isCancelled parent = true →
    token.cancelled = true

section
variable {set : CancelTokens}

theorem hears_extract (orderly : set.Orderly) {tokens : Array CancelToken}
    (made : set.tokens[place]? = some token) :
    hears (tokens.extract 0 place) token = true ↔
      token.attached = true ∧ ∃ parent, token.parent = some parent ∧
        isCancelled ⟨tokens⟩ parent = true := by
  rw [hears, Bool.and_eq_true]
  refine and_congr_right fun _ => ?_
  cases link : token.parent with
  | none => simp
  | some parent =>
    have less := orderly.older (parent?_eq_some.2 ⟨token, made, link⟩)
    have same : (tokens.extract 0 place)[parent]? = tokens[parent]? := by
      rw [getElem?_extract]
      split
      · rw [zero_add]
      · rw [Array.getElem?_eq_none (by omega)]
    rw [bind_some, same]
    simp only [some.injEq, exists_eq_left', isCancelled]

/-- A token is cancelled with another one if it is the same, or if it hears a parent that is
cancelled now. -/
theorem getElem?_cancel (id place : Nat) : (set.cancel id).tokens[place]? = set.tokens[place]?.map
    fun token =>
      token.cancelIf (place == id || hears ((set.cancel id).tokens.extract 0 place) token) := by
  have all : (set.cancel id).tokens
      = hearAll #[] (set.tokens.modify id fun token =>
        { token with cancelled := true }).toList := by
    rw [cancel, hearAll, Array.foldl_toList]
  have heard :=
    getElem?_hearAll (set.tokens.modify id fun token =>
      { token with cancelled := true }).toList place
  rw [← all, Array.getElem?_toList, Array.getElem?_modify] at heard
  rw [heard]
  generalize (set.cancel id).tokens.extract 0 place = before
  have alike (token : CancelToken) :
      hears before { token with cancelled := true } = hears before token := rfl
  cases set.tokens[place]? with
  | none => split <;> rfl
  | some token =>
    by_cases here : id = place
    · subst here
      simp [alike, CancelToken.cancelIf]
    · have away : (place == id) = false := beq_eq_false_iff_ne.2 fun same => here same.symm
      cases heard : hears before token <;> simp [here, away, heard, CancelToken.cancelIf]

theorem parent?_cancel (id place : Nat) : (set.cancel id).parent? place = set.parent? place := by
  rw [parent?, parent?, getElem?_cancel]
  cases set.tokens[place]? <;> rfl

theorem size_cancel (id : Nat) : (set.cancel id).tokens.size = set.tokens.size := by
  have bound (place : Nat) : (set.cancel id).tokens.size ≤ place ↔ set.tokens.size ≤ place := by
    rw [← Array.getElem?_eq_none_iff, ← Array.getElem?_eq_none_iff, getElem?_cancel,
      map_eq_none_iff]
  exact le_antisymm ((bound _).2 (le_refl _)) ((bound _).1 (le_refl _))

theorem isCancelled_cancel_step (orderly : set.Orderly) (id place : Nat) :
    (set.cancel id).isCancelled place = true ↔ ∃ token, set.tokens[place]? = some token ∧
      (token.cancelled = true ∨ place = id ∨ token.attached = true ∧
        ∃ parent, token.parent = some parent ∧ (set.cancel id).isCancelled parent = true) := by
  rw [isCancelled_iff, getElem?_cancel]
  constructor
  · rintro ⟨_, found, flag⟩
    obtain ⟨token, made, rfl⟩ := map_eq_some_iff.1 found
    refine ⟨token, made, ?_⟩
    rwa [CancelToken.cancelIf, Bool.or_eq_true, Bool.or_eq_true, beq_iff_eq,
      hears_extract orderly made] at flag
  · rintro ⟨token, made, flag⟩
    refine ⟨_, map_eq_some_iff.2 ⟨token, made, rfl⟩, ?_⟩
    rwa [CancelToken.cancelIf, Bool.or_eq_true, Bool.or_eq_true, beq_iff_eq,
      hears_extract orderly made]

/-- Cancelling a token cancels exactly those that it reaches. -/
theorem isCancelled_cancel (orderly : set.Orderly) (id place : Nat) :
    (set.cancel id).isCancelled place = true ↔
      set.isCancelled place = true ∨ Reached set set id place := by
  constructor
  · induction place using Nat.strong_induction_on with
    | _ place ih =>
      intro flag
      obtain ⟨token, made, old | rfl | ⟨attached, parent, link, above⟩⟩ :=
        (isCancelled_cancel_step orderly id place).1 flag
      · exact .inl (isCancelled_iff.2 ⟨token, made, old⟩)
      · exact .inr (.self (Array.getElem?_eq_some_iff.1 made).1)
      · have link' := parent?_eq_some.2 ⟨token, made, link⟩
        rcases ih parent (orderly.older link') above with old | reached
        · exact .inl (isCancelled_iff.2 ⟨token, made, orderly.heard made attached link old⟩)
        · refine .inr (.child link' (fun token' made' => ?_) reached)
          rwa [← some.inj (made.symm.trans made')]
  · rintro (old | reached)
    · obtain ⟨token, made, flag⟩ := isCancelled_iff.1 old
      exact (isCancelled_cancel_step orderly id place).2 ⟨token, made, .inl flag⟩
    · induction reached with
      | self made =>
        exact (isCancelled_cancel_step orderly id id).2
          ⟨_, getElem?_eq_getElem made, .inr (.inl rfl)⟩
      | child link heard _ ih =>
        obtain ⟨token, made, parent⟩ := parent?_eq_some.1 link
        exact (isCancelled_cancel_step orderly id _).2
          ⟨token, made, .inr (.inr ⟨heard token made, _, parent, ih⟩)⟩

theorem getElem?_detach (id place : Nat) : (set.detach id).tokens[place]?
    = set.tokens[place]?.map fun token =>
      { token with attached := token.attached && place != id } := by
  rw [detach, Array.getElem?_modify]
  by_cases here : id = place
  · subst here
    simp
  · have away : (place != id) = true := bne_iff_ne.2 fun same => here same.symm
    cases set.tokens[place]? <;> simp [here, away]

theorem isCancelled_detach (id place : Nat) :
    (set.detach id).isCancelled place = set.isCancelled place := by
  rw [isCancelled, isCancelled, getElem?_detach]
  cases set.tokens[place]? <;> rfl

theorem parent?_detach (id place : Nat) : (set.detach id).parent? place = set.parent? place := by
  rw [parent?, parent?, getElem?_detach]
  cases set.tokens[place]? <;> rfl

theorem isCancelled_push (token : CancelToken) (place : Nat) :
    isCancelled ⟨set.tokens.push token⟩ place
      = if place = set.tokens.size then token.cancelled else set.isCancelled place := by
  simp only [isCancelled, getElem?_push]
  by_cases new : place = set.tokens.size
  · rw [if_pos new, if_pos new]
  · rw [if_neg new, if_neg new]

theorem parent?_push (token : CancelToken) (place : Nat) :
    parent? ⟨set.tokens.push token⟩ place
      = if place = set.tokens.size then token.parent else set.parent? place := by
  simp only [parent?, getElem?_push]
  split <;> rfl

end

/-! ## Steps in turn -/

theorem Orderly.push (orderly : set.Orderly)
    (older : ∀ parent, token.parent = some parent → parent < set.tokens.size)
    (heard : ∀ parent, token.parent = some parent → set.isCancelled parent = true →
      token.cancelled = true) :
    Orderly ⟨set.tokens.push token⟩ := by
  refine ⟨fun {id parent} link => ?_, fun {id parent found} made attached link flag => ?_⟩
  · rw [parent?_push] at link
    split at link
    next new => exact new ▸ older parent link
    next => exact orderly.older link
  · rw [getElem?_push] at made
    rw [isCancelled_push] at flag
    split at made
    next new =>
      cases made
      have less := older parent link
      rw [if_neg (by omega)] at flag
      exact heard parent link flag
    next old =>
      have less := orderly.older (parent?_eq_some.2 ⟨found, made, link⟩)
      have inside := (Array.getElem?_eq_some_iff.1 made).1
      rw [if_neg (by omega)] at flag
      exact orderly.heard made attached link flag

theorem Orderly.step (orderly : set.Orderly) (change : TokenStep) : (set.step change).Orderly := by
  cases change with
  | add => exact orderly.push nofun nofun
  | child parent =>
    rw [CancelTokens.step]
    split
    next inside =>
      refine orderly.push (fun found same => ?_) fun found same flag => ?_
      · cases same
        exact inside
      · cases same
        exact flag
    next => exact orderly
  | detach id =>
    refine ⟨fun link => orderly.older ((parent?_detach id _).symm.trans link),
      fun {place parent found} made attached link flag => ?_⟩
    rw [CancelTokens.step, getElem?_detach] at made
    obtain ⟨token, made', rfl⟩ := map_eq_some_iff.1 made
    rw [CancelTokens.step, isCancelled_detach] at flag
    have heard : token.cancelled = true :=
      orderly.heard made' (Bool.and_eq_true_iff.1 attached).1 link flag
    exact heard
  | cancel id =>
    refine ⟨fun link => orderly.older ((parent?_cancel id _).symm.trans link),
      fun {place parent found} made attached link flag => ?_⟩
    rw [CancelTokens.step, getElem?_cancel] at made
    obtain ⟨token, made', rfl⟩ := map_eq_some_iff.1 made
    have here := (isCancelled_cancel_step orderly id place).2
      ⟨token, made', .inr (.inr ⟨attached, parent, link, flag⟩)⟩
    obtain ⟨again, made'', flag⟩ := isCancelled_iff.1 here
    rw [getElem?_cancel, made] at made''
    rwa [some.inj made'']

theorem after_append (set : CancelTokens) (steps more : List TokenStep) :
    set.after (steps ++ more) = (set.after steps).after more :=
  foldl_append

theorem orderly_after (steps : List TokenStep) : (after {} steps).Orderly := by
  refine foldlRecOn (motive := Orderly) steps step ⟨fun link => ?_, fun made => ?_⟩
    fun set orderly change _ => orderly.step change
  · simp [parent?] at link
  · simp at made

/-- What a step keeps of the tokens that were there. -/
structure Keeps (set set' : CancelTokens) : Prop where
  size : set.tokens.size ≤ set'.tokens.size
  parent? {id : Nat} : id < set.tokens.size → set'.parent? id = set.parent? id
  cancelled {id : Nat} : set.isCancelled id = true → set'.isCancelled id = true

theorem isCancelled_lt (flag : set.isCancelled id = true) : id < set.tokens.size := by
  obtain ⟨token, made, -⟩ := isCancelled_iff.1 flag
  exact (Array.getElem?_eq_some_iff.1 made).1

theorem Keeps.push (set : CancelTokens) (token : CancelToken) :
    set.Keeps ⟨set.tokens.push token⟩ := by
  refine ⟨by simp, fun inside => ?_, fun flag => ?_⟩
  · rw [parent?_push, if_neg (by omega)]
  · rw [isCancelled_push, if_neg (Nat.ne_of_lt (isCancelled_lt flag))]
    exact flag

theorem Keeps.refl (set : CancelTokens) : set.Keeps set := ⟨le_refl _, fun _ => rfl, id⟩

theorem Keeps.trans {set'' : CancelTokens} (first : set.Keeps set') (second : set'.Keeps set'') :
    set.Keeps set'' :=
  ⟨le_trans first.size second.size, fun inside =>
    (second.parent? (lt_of_lt_of_le inside first.size)).trans (first.parent? inside),
    second.cancelled ∘ first.cancelled⟩

theorem Orderly.keeps (orderly : set.Orderly) (change : TokenStep) :
    set.Keeps (set.step change) := by
  cases change with
  | add => exact .push set _
  | child parent =>
    rw [CancelTokens.step]
    split
    · exact .push set _
    · exact .refl set
  | detach id =>
    refine ⟨by simp [CancelTokens.step, detach], fun _ => parent?_detach id _, fun flag => ?_⟩
    rwa [CancelTokens.step, isCancelled_detach]
  | cancel id =>
    exact ⟨le_of_eq (size_cancel id).symm, fun _ => parent?_cancel id _,
      fun flag => (isCancelled_cancel orderly id _).2 (.inl flag)⟩

theorem Orderly.keeps_after (orderly : set.Orderly) (steps : List TokenStep) :
    set.Keeps (set.after steps) := by
  have both := foldlRecOn (motive := fun later => Orderly later ∧ set.Keeps later) steps
    CancelTokens.step
    ⟨orderly, .refl set⟩ fun later both change _ =>
      ⟨both.1.step change, both.2.trans (both.1.keeps change)⟩
  exact both.2

/-- A token that was there before is reached now if and only if it was. -/
theorem reached_keeps (orderly : set.Orderly) (keeps : set.Keeps set')
    (inside : id < set.tokens.size) :
    Reached earlier set' ancestor id ↔ Reached earlier set ancestor id := by
  constructor
  · intro reached
    induction reached with
    | self made => exact .self made
    | child link heard _ ih =>
      rw [keeps.parent? inside] at link
      exact .child link heard (ih (lt_trans (orderly.older link) inside))
  · intro reached
    induction reached with
    | self made => exact .self made
    | child link heard _ ih =>
      have above := lt_trans (orderly.older link) inside
      exact .child ((keeps.parent? inside).trans link) heard (ih above)

theorem Reached.lt (reached : Reached earlier set ancestor id)
    (size : earlier.tokens.size ≤ set.tokens.size) : id < set.tokens.size := by
  cases reached with
  | self made => exact lt_of_lt_of_le made size
  | child link => exact lt_of_parent? link

theorem size_step_le (set : CancelTokens) (change : TokenStep) :
    (set.step change).tokens.size ≤ set.tokens.size + 1 := by
  cases change with
  | add => exact le_of_eq (size_push _)
  | child parent =>
    rw [step]
    split
    · exact le_of_eq (size_push _)
    · exact le_succ _
  | detach id => simp [step, detach]
  | cancel id => rw [step, size_cancel]; exact le_succ _

/-- What a step does to a token that was there before. -/
theorem isCancelled_old (orderly : set.Orderly) (change : TokenStep)
    (inside : id < set.tokens.size) : (set.step change).isCancelled id = true ↔
      set.isCancelled id = true ∨ ∃ target, change = .cancel target ∧
        Reached set set target id := by
  have away : ¬id = set.tokens.size := Nat.ne_of_lt inside
  cases change with
  | add => simp [step, add, isCancelled_push, away]
  | child parent =>
    rw [step]
    split
    · simp [child, isCancelled_push, away]
    · simp
  | detach target => simp [step, isCancelled_detach]
  | cancel target => simpa [step] using isCancelled_cancel orderly target id

/-- A new token is cancelled if and only if it is the child of a cancelled one. -/
theorem isCancelled_new (change : TokenStep) (new : set.tokens.size ≤ id) :
    (set.step change).isCancelled id = true ↔
      ∃ parent, (set.step change).parent? id = some parent ∧ set.isCancelled parent = true := by
  have none : ¬set.isCancelled id = true := fun flag => absurd (isCancelled_lt flag) (by omega)
  have alone : set.parent? id = Option.none := by
    rw [parent?, Array.getElem?_eq_none new]
    rfl
  cases change with
  | add =>
    simp only [step, add, isCancelled_push, parent?_push, alone]
    split <;> simp [none]
  | child parent =>
    simp only [step]
    split
    · simp only [child, isCancelled_push, parent?_push, alone]
      split <;> simp [none]
    · simp [none, alone]
  | detach target => simp [step, isCancelled_detach, parent?_detach, none, alone]
  | cancel target =>
    have away : ¬(set.cancel target).isCancelled id = true := fun flag =>
      absurd (isCancelled_lt flag) (by rw [size_cancel]; omega)
    simp [step, parent?_cancel, away, alone]

/-- At some time a token was cancelled that another one was made from, itself included, and all
tokens on the way that were there at that time heard their parents. -/
def ReachedOnce (steps : List TokenStep) (id : Nat) : Prop :=
  ∃ before ancestor behind, steps = before ++ .cancel ancestor :: behind ∧
    Reached (after {} before) (after {} steps) ancestor id

section
variable {steps : List TokenStep} {change : TokenStep} {id : Nat}

theorem size_before {before behind : List TokenStep} (parts : steps = before ++ behind) :
    (after {} before).tokens.size ≤ (after {} steps).tokens.size := by
  rw [parts, after_append]
  exact ((orderly_after before).keeps_after _).size

theorem after_snoc : after {} (steps ++ [change]) = (after {} steps).step change :=
  after_append _ _ _

/-- What reached a token before still reaches it. -/
theorem ReachedOnce.snoc (reached : ReachedOnce steps id) (change : TokenStep) :
    ReachedOnce (steps ++ [change]) id := by
  obtain ⟨before, ancestor, behind, parts, reached⟩ := reached
  refine ⟨before, ancestor, behind ++ [change], by rw [parts]; simp, ?_⟩
  rw [after_snoc]
  exact (reached_keeps (orderly_after steps) ((orderly_after steps).keeps change)
    (reached.lt (size_before parts))).2 reached

/-- What reaches a token reached it before, or is the last step, or reached the parent of the token,
which is new. -/
theorem ReachedOnce.cases (reached : ReachedOnce (steps ++ [change]) id) :
    (id < (after {} steps).tokens.size ∧ (ReachedOnce steps id ∨
      ∃ target, change = .cancel target ∧ Reached (after {} steps) (after {} steps) target id)) ∨
    ((after {} steps).tokens.size ≤ id ∧ ∃ parent,
      ((after {} steps).step change).parent? id = some parent ∧ ReachedOnce steps parent) := by
  obtain ⟨before, ancestor, behind, parts, reached⟩ := reached
  have orderly := orderly_after steps
  have keeps := orderly.keeps change
  rw [after_snoc] at reached
  rcases eq_nil_or_concat behind with rfl | ⟨behind, last, rfl⟩
  · obtain ⟨rfl, same⟩ := append_inj' parts rfl
    obtain rfl := (List.cons.inj same).1
    have inside := reached.lt keeps.size
    rw [step, size_cancel] at inside
    exact .inl ⟨inside, .inr ⟨ancestor, rfl, (reached_keeps orderly keeps inside).1 reached⟩⟩
  · rw [List.concat_eq_append, ← List.cons_append, ← List.append_assoc] at parts
    obtain ⟨parts, same⟩ := List.append_inj' parts rfl
    have size := size_before parts
    by_cases inside : id < (after {} steps).tokens.size
    · exact .inl ⟨inside, .inl ⟨before, ancestor, behind, parts,
        (reached_keeps orderly keeps inside).1 reached⟩⟩
    · refine .inr ⟨Nat.le_of_not_lt inside, ?_⟩
      cases reached with
      | self made => omega
      | @child _ parent link heard above =>
        have less := (orderly.step change).older link
        have bound := lt_of_parent? link
        have most := size_step_le (after {} steps) change
        exact ⟨parent, link, before, ancestor, behind, parts,
          (reached_keeps orderly keeps (by omega)).1 above⟩

end

/-- A token is cancelled if and only if cancelling has reached it once: at that time it was
cancelled itself, or a token that it was made from, and all tokens on the way that were there heard
their parents. A cancelled token stays cancelled. -/
theorem isCancelled_after_iff (steps : List TokenStep) (id : Nat) :
    ((after {} steps).isCancelled id = true ↔ ReachedOnce steps id) ∧
    ∀ more, (after {} steps).isCancelled id = true →
      (after {} (steps ++ more)).isCancelled id = true := by
  refine ⟨?_, fun more flag => ?_⟩
  · induction steps using reverseRecOn generalizing id with
    | nil => simp [after, isCancelled, ReachedOnce]
    | append_singleton steps change ih =>
      have orderly := orderly_after steps
      have keeps := orderly.keeps change
      rw [after_snoc]
      constructor
      · intro flag
        by_cases inside : id < (after {} steps).tokens.size
        · rcases (isCancelled_old orderly change inside).1 flag with old | ⟨target, rfl, reached⟩
          · exact ((ih id).1 old).snoc change
          · refine ⟨steps, target, [], rfl, ?_⟩
            rw [after_snoc]
            exact (reached_keeps orderly keeps inside).2 reached
        · obtain ⟨parent, link, above⟩ := (isCancelled_new change (Nat.le_of_not_lt inside)).1 flag
          obtain ⟨before, ancestor, behind, parts, reached⟩ := (ih parent).1 above
          have size := size_before parts
          refine ⟨before, ancestor, behind ++ [change], by rw [parts]; simp, ?_⟩
          rw [after_snoc]
          refine .child link (fun token made => ?_)
            ((reached_keeps orderly keeps (isCancelled_lt above)).2 reached)
          exact absurd (Array.getElem?_eq_some_iff.1 made).1 (by omega)
      · intro reached
        rcases reached.cases with ⟨inside, old | last⟩ | ⟨new, parent, link, above⟩
        · exact (isCancelled_old orderly change inside).2 (.inl ((ih id).2 old))
        · exact (isCancelled_old orderly change inside).2 (.inr last)
        · exact (isCancelled_new change new).2 ⟨parent, link, (ih parent).2 above⟩
  · rw [after_append]
    exact ((orderly_after steps).keeps_after more).cancelled flag

/-- A token with a child and a grandchild; the child is detached before the token is cancelled. -/
def orphaning : List TokenStep := [.add, .child 0, .child 1, .detach 1, .cancel 0]

/-- The grandchild still hears its parent, and was made from the cancelled token, but is not
cancelled. -/
theorem orphan_not_cancelled :
    Descends (after {} orphaning) 0 2 ∧ (after {} orphaning).tokens[2]?.map (·.attached)
      = some true ∧
      (after {} orphaning).isCancelled 0 = true ∧ (after {} orphaning).isCancelled 2 = false := by
  have child : (after {} orphaning).parent? 1 = some 0 := by decide
  have grandchild : (after {} orphaning).parent? 2 = some 1 := by decide
  exact ⟨.child grandchild (.child child (.self (by decide))), by decide, by decide, by decide⟩

end CancelTokens

end Skiff

/-
  Throughput/Proofs/Series/Contents.lean
  ======================================
  **What a collector holds.**  Looking up the buffer of a tag says all there is
  to say about a collector: an update changes the look-up at its own tag only,
  and collectors with the same look-ups hold the same tags in the same order
  (`forall₂_of_buffer?`).  After pushing observations, the buffer of a tag holds
  the observations with that tag in the order they came (`buffer?_pushAll`).
-/
import Mathlib.Data.List.Forall2
import Throughput.Series.Collector

namespace Throughput

/-! ### The order of tags -/

namespace Tag

variable {κ : Type} [SeriesKey κ]

theorem before_asymm {a b : Tag κ} (h : a.before b = true) : b.before a = false := by
  cases hback : b.before a with
  | false => rfl
  | true => exact absurd (before_trans h hback) (by simp [before_irrefl])

theorem eq_or_before_or_before (a b : Tag κ) :
    a = b ∨ a.before b = true ∨ b.before a = true := by
  cases hab : a.before b with
  | true => exact .inr (.inl rfl)
  | false =>
    cases hba : b.before a with
    | true => exact .inr (.inr rfl)
    | false => exact .inl (eq_of_not_before hab hba)

theorem before_of_not_before_of_before {a b c : Tag κ} (hab : b.before a = false)
    (hbc : b.before c = true) : a.before c = true := by
  rcases eq_or_before_or_before a b with rfl | h | h
  · exact hbc
  · exact before_trans h hbc
  · exact absurd h (by simp [hab])

end Tag

/-! ### Observations -/

/-- A sample on its way into a series. -/
structure Observation (κ : Type) where
  tag : Tag κ
  time : Option Stamp
  value : Binary64

def Observation.point? {κ : Type} (o : Observation κ) : Option TimedSample :=
  o.time.map fun time => ⟨time, o.value⟩

variable {κ : Type}

namespace Buffer

def addAll (b : Buffer) (os : List (Observation κ)) : Buffer :=
  os.foldl (fun b o => b.add o.time o.value) b

@[simp] theorem addAll_nil (b : Buffer) : b.addAll ([] : List (Observation κ)) = b := rfl

@[simp] theorem addAll_cons (b : Buffer) (o : Observation κ) (os : List (Observation κ)) :
    b.addAll (o :: os) = (b.add o.time o.value).addAll os := rfl

theorem samples_addAll (b : Buffer) (os : List (Observation κ)) :
    (b.addAll os).samples.toList = b.samples.toList ++ os.map (·.value) := by
  induction os generalizing b with
  | nil => simp
  | cons o os ih => simp [ih, add]

theorem points_addAll (b : Buffer) (os : List (Observation κ)) :
    (b.addAll os).points.toList = b.points.toList ++ os.filterMap Observation.point? := by
  induction os generalizing b with
  | nil => simp
  | cons o os ih => cases h : o.time <;> simp [ih, add, Observation.point?, h]

end Buffer

namespace Collector

variable [SeriesKey κ]

/-! ### Looking up a tag -/

/-- The buffer of a tag among ascending buffers. -/
def buffer? (tag : Tag κ) : List (Tag κ × Buffer) → Option Buffer
  | [] => none
  | (t, b) :: rest =>
    if t.before tag then buffer? tag rest
    else if tag.before t then none
    else some b

theorem buffer?_cons_self (tag : Tag κ) (b : Buffer) (rest : List (Tag κ × Buffer)) :
    buffer? tag ((tag, b) :: rest) = some b := by
  simp [buffer?, Tag.before_irrefl]

theorem buffer?_eq_none_of_forall_before {tag : Tag κ} {buffers : List (Tag κ × Buffer)}
    (h : ∀ e ∈ buffers, tag.before e.1 = true) : buffer? tag buffers = none := by
  cases buffers with
  | nil => rfl
  | cons e rest =>
    have hbefore := h e List.mem_cons_self
    simp [buffer?, Tag.before_asymm hbefore, hbefore]

/-- No tag up to the first one has a buffer behind it. -/
theorem buffer?_rest_eq_none {tag : Tag κ} {e : Tag κ × Buffer} {rest : List (Tag κ × Buffer)}
    (h : ∀ e' ∈ rest, e.1.before e'.1 = true) (hnot : e.1.before tag = false) :
    buffer? tag rest = none :=
  buffer?_eq_none_of_forall_before fun e' he' =>
    Tag.before_of_not_before_of_before hnot (h e' he')

theorem buffer?_updateBuffers_self (tag : Tag κ) (f : Buffer → Buffer)
    (buffers : List (Tag κ × Buffer)) :
    buffer? tag (updateBuffers tag f buffers) =
      some (f ((buffer? tag buffers).getD .empty)) := by
  induction buffers with
  | nil => simp [updateBuffers, buffer?, Tag.before_irrefl]
  | cons e rest ih =>
    obtain ⟨t, b⟩ := e
    simp only [updateBuffers, buffer?]
    split
    next h => simp [buffer?, h, ih]
    next h =>
      split
      next h' => simp [buffer?, Tag.before_irrefl]
      next h' => simp [buffer?, h, h']

theorem buffer?_updateBuffers_of_ne {t tag : Tag κ} (hne : t ≠ tag) (f : Buffer → Buffer)
    (buffers : List (Tag κ × Buffer)) :
    buffer? t (updateBuffers tag f buffers) = buffer? t buffers := by
  have hcases : tag.before t = true ∨ tag.before t = false ∧ t.before tag = true := by
    rcases Tag.eq_or_before_or_before t tag with h | h | h
    · exact absurd h hne
    · exact .inr ⟨Tag.before_asymm h, h⟩
    · exact .inl h
  induction buffers with
  | nil => rcases hcases with h | ⟨h, h'⟩ <;> simp [updateBuffers, buffer?, *]
  | cons e rest ih =>
    obtain ⟨u, b⟩ := e
    simp only [updateBuffers]
    split
    next hu => simp only [buffer?, ih]
    next hu =>
      split
      next htag =>
        -- the new buffer stands in front of the first one; it is passed over or not reached
        rcases hcases with h | ⟨h, h'⟩
        · simp [buffer?, h]
        · have hback := Tag.before_asymm (Tag.before_trans h' htag)
          simp [buffer?, h, h', hback, Tag.before_trans h' htag]
      next htag =>
        obtain rfl : u = tag := Tag.eq_of_not_before (by simpa using hu) (by simpa using htag)
        rcases hcases with h | ⟨h, h'⟩ <;> simp [buffer?, *]

/-- A tag with a buffer does not stand before the first one. -/
theorem not_before_of_buffer? {tag : Tag κ} {b : Buffer} {e : Tag κ × Buffer}
    {rest : List (Tag κ × Buffer)} (h : ∀ e' ∈ rest, e.1.before e'.1 = true)
    (hfound : buffer? tag (e :: rest) = some b) : tag.before e.1 = false := by
  rw [Bool.eq_false_iff]
  intro hlt
  rw [buffer?_eq_none_of_forall_before] at hfound
  · cases hfound
  · exact List.forall_mem_cons.2 ⟨hlt, fun e' he' => Tag.before_trans hlt (h e' he')⟩

/-- Ascending buffers with related look-ups have the same tags, and related
    buffers under them. -/
theorem forall₂_of_buffer? {R : Buffer → Buffer → Prop} {l₁ l₂ : List (Tag κ × Buffer)}
    (h₁ : l₁.Pairwise fun a b => a.1.before b.1 = true)
    (h₂ : l₂.Pairwise fun a b => a.1.before b.1 = true)
    (h : ∀ tag, Option.Rel R (buffer? tag l₁) (buffer? tag l₂)) :
    List.Forall₂ (fun a b => a.1 = b.1 ∧ R a.2 b.2) l₁ l₂ := by
  induction l₁ generalizing l₂ with
  | nil =>
    cases l₂ with
    | nil => exact .nil
    | cons e₂ rest₂ =>
      have hrel := h e₂.1
      rw [buffer?_cons_self] at hrel
      cases hrel
  | cons e₁ rest₁ ih =>
    cases l₂ with
    | nil =>
      have hrel := h e₁.1
      rw [buffer?_cons_self] at hrel
      cases hrel
    | cons e₂ rest₂ =>
      obtain ⟨hall₁, hrest₁⟩ := List.pairwise_cons.1 h₁
      obtain ⟨hall₂, hrest₂⟩ := List.pairwise_cons.1 h₂
      -- either first tag has a buffer on the other side, so neither stands before the other
      have hnot₁ : e₁.1.before e₂.1 = false := by
        have hrel := h e₁.1
        rw [buffer?_cons_self] at hrel
        generalize hfound : buffer? e₁.1 (e₂ :: rest₂) = found at hrel
        cases hrel
        exact not_before_of_buffer? hall₂ hfound
      have hnot₂ : e₂.1.before e₁.1 = false := by
        have hrel := h e₂.1
        rw [buffer?_cons_self] at hrel
        generalize hfound : buffer? e₂.1 (e₁ :: rest₁) = found at hrel
        cases hrel
        exact not_before_of_buffer? hall₁ hfound
      have htag : e₁.1 = e₂.1 := Tag.eq_of_not_before hnot₁ hnot₂
      refine .cons ⟨htag, ?_⟩ (ih hrest₁ hrest₂ fun tag => ?_)
      · have hrel := h e₁.1
        rw [buffer?_cons_self, htag, buffer?_cons_self] at hrel
        exact Option.rel_some_some.1 hrel
      · have hrel := h tag
        cases hbefore : e₁.1.before tag with
        | true => simpa [buffer?, hbefore, ← htag] using hrel
        | false =>
          rw [buffer?_rest_eq_none hall₁ hbefore, buffer?_rest_eq_none hall₂ (htag ▸ hbefore)]
          exact .none

/-! ### Pushing observations -/

def pushAll (c : Collector κ) (os : List (Observation κ)) : Collector κ :=
  os.foldl (fun c o => c.push o.tag o.time o.value) c

@[simp] theorem pushAll_cons (c : Collector κ) (o : Observation κ) (os : List (Observation κ)) :
    c.pushAll (o :: os) = (c.push o.tag o.time o.value).pushAll os := rfl

theorem buffer?_push [DecidableEq (Tag κ)] (c : Collector κ) (tag : Tag κ)
    (o : Observation κ) :
    buffer? tag (c.push o.tag o.time o.value).buffers =
      if o.tag = tag then some (((buffer? tag c.buffers).getD .empty).add o.time o.value)
      else buffer? tag c.buffers := by
  split
  next h => rw [← h]; exact buffer?_updateBuffers_self _ _ _
  next h => exact buffer?_updateBuffers_of_ne (Ne.symm h) _ _

/-- The buffer of a tag holds the observations with that tag and nothing else. -/
theorem buffer?_pushAll [DecidableEq (Tag κ)] (c : Collector κ) (os : List (Observation κ))
    (tag : Tag κ) :
    buffer? tag (c.pushAll os).buffers =
      if os.filter (·.tag = tag) = [] then buffer? tag c.buffers
      else some (((buffer? tag c.buffers).getD .empty).addAll (os.filter (·.tag = tag))) := by
  induction os generalizing c with
  | nil => rfl
  | cons o os ih =>
    rw [pushAll_cons, ih, buffer?_push]
    by_cases h : o.tag = tag
    · by_cases hnil : os.filter (·.tag = tag) = [] <;> simp [h, hnil]
    · simp [h]

end Collector

end Throughput

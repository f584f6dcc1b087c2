import Mathlib.Algebra.Order.Field.Rat
import Mathlib.Tactic.Linarith
import Ncro.Foundation.Comparison
import Ncro.Health

/-!
# The order of latencies

`sorted_by_latency` layers four rules: what is down comes last, then priorities decide
between latencies within ten percent, then what was never measured comes last, then
latencies decide. The ten percent are taken of the second latency only. For any
entries the comparison is the one by windows within each of four classes, so it is
known exactly for which entries it can be sorted with.
-/

namespace Ncro

open Foundation

namespace UpstreamHealth

/-- The moving average of a measured entry is finite and not negative. -/
def Measured (h : UpstreamHealth) : Prop :=
  h.emaLatency.isFinite = true ∧ 0 ≤ h.emaLatency.toRat

/-- The latency as a number. -/
def latency (h : UpstreamHealth) : ℚ :=
  h.emaLatency.toRat

/-- What is compared before latencies and priorities: the entries that are down come
last, and among the others and among these the ones without a latency. -/
def orderClass (h : UpstreamHealth) : ℕ :=
  (if h.status = .down then 2 else 0) + if h.latency = 0 then 1 else 0

/-- The latency of `a` is within ten percent of the one of `b`. -/
def WithinWindow (a b : UpstreamHealth) : Prop :=
  |a.latency - b.latency| < b.latency / 10

instance : DecidableRel WithinWindow :=
  fun a b => inferInstanceAs (Decidable (|a.latency - b.latency| < b.latency / 10))

theorem orderClass_eq_iff {a b : UpstreamHealth} :
    a.orderClass = b.orderClass ↔
      (a.status = .down ↔ b.status = .down) ∧ (a.latency = 0 ↔ b.latency = 0) := by
  unfold orderClass
  by_cases ha : a.status = .down <;> by_cases hb : b.status = .down <;>
    by_cases ha' : a.latency = 0 <;> by_cases hb' : b.latency = 0 <;>
      simp [ha, hb, ha', hb']

/-! ## The comparison by classes and windows -/

section Comparison

variable {a b : UpstreamHealth}

/-- The second rule looks for the first latency in the window of the second. -/
theorem Measured.inWindow_iff (ha : a.Measured) (hb : b.Measured) :
    (Double.lt (.fin 0) b.emaLatency = true ∧
        ((a.emaLatency.sub b.emaLatency).abs.div b.emaLatency).lt (.fin (1 / 10)) = true) ↔
      WithinWindow a b := by
  have hpos : Double.lt (.fin 0) b.emaLatency = true ↔ 0 < b.latency := by
    rw [Double.lt_of_isFinite rfl hb.1, decide_eq_true_iff]
    rfl
  rw [hpos]
  by_cases h : 0 < b.latency
  · obtain ⟨hsub, hsub'⟩ := Double.sub_of_isFinite ha.1 hb.1
    obtain ⟨habs, habs'⟩ := Double.abs_of_isFinite hsub
    obtain ⟨hdiv, hdiv'⟩ := Double.div_of_isFinite habs hb.1 h.ne'
    rw [Double.lt_of_isFinite hdiv rfl, decide_eq_true_iff, hdiv', habs', hsub']
    change 0 < b.latency ∧ |a.latency - b.latency| / b.latency < 1 / 10 ↔ WithinWindow a b
    rw [div_lt_iff₀ h, WithinWindow, and_iff_right h, one_div_mul_eq_div]
  · have hzero : b.latency = 0 := le_antisymm (not_lt.1 h) hb.2
    apply iff_of_false (fun h' => h h'.1)
    rw [WithinWindow, hzero, zero_div]
    exact (abs_nonneg _).not_gt

theorem Measured.beq_zero_iff (ha : a.Measured) :
    a.emaLatency.beq (.fin 0) = true ↔ a.latency = 0 := by
  rw [Double.beq_of_isFinite ha.1 rfl, decide_eq_true_iff]
  rfl

/-- A window leaves out what has no latency. -/
theorem WithinWindow.ne_zero (ha : a.Measured) (hb : b.Measured) (h : WithinWindow a b) :
    a.latency ≠ 0 ∧ b.latency ≠ 0 := by
  have hb' := hb.2
  have ha' := ha.2
  change 0 ≤ b.latency at hb'
  rw [WithinWindow, abs_lt] at h
  constructor <;> intro hzero <;> rw [hzero] at h <;> linarith [h.1, h.2]

/-- Within a class windows decide. -/
theorem latencyOrder_eq (ha : a.Measured) (hb : b.Measured) :
    latencyOrder a b = (compare a.orderClass b.orderClass).then
      (windowCompare latency priority WithinWindow a b) := by
  have hcmp : (a.emaLatency.partialCmp b.emaLatency).getD .eq =
      compare a.latency b.latency := by
    rw [Double.partialCmp_of_isFinite ha.1 hb.1]
    rfl
  unfold latencyOrder
  simp only [hcmp, ha.beq_zero_iff, hb.beq_zero_iff]
  simp only [← and_assoc, ha.inWindow_iff hb]
  unfold windowCompare orderClass
  by_cases hwindow : WithinWindow a b
  · obtain ⟨hzero, hzero'⟩ := hwindow.ne_zero ha hb
    by_cases hdown : a.status = .down <;> by_cases hdown' : b.status = .down <;>
      simp [hdown, hdown', hwindow, hzero, hzero', compare, compareOfLessAndEq]
  · by_cases hdown : a.status = .down <;> by_cases hdown' : b.status = .down <;>
      by_cases hzero : a.latency = 0 <;> by_cases hzero' : b.latency = 0 <;>
        simp [hdown, hdown', hwindow, hzero, hzero', compare, compareOfLessAndEq]

end Comparison

/-! ## Entries that can be sorted -/

/-- `b` is slower than `a`, and within ten percent of its own latency, but comes first for its
priority. -/
structure OvertakenBy (a b : UpstreamHealth) : Prop where
  down_iff : a.status = .down ↔ b.status = .down
  slower : a.latency < b.latency
  preferred : b.priority < a.priority
  within : b.latency - a.latency < b.latency / 10

/-- Whatever overtakes is within ten percent of the faster latency as well, and overtakes all
that is overtaken by what it overtakes. -/
structure WindowsConsistent (entries : Set UpstreamHealth) : Prop where
  both : ∀ a ∈ entries, ∀ b ∈ entries, OvertakenBy a b → b.latency - a.latency < a.latency / 10
  trans : ∀ a ∈ entries, ∀ b ∈ entries, ∀ c ∈ entries, OvertakenBy a b → OvertakenBy b c →
    c.latency - a.latency < c.latency / 10

theorem withinWindow_of_slower {a b : UpstreamHealth} (h : a.latency < b.latency) :
    (WithinWindow a b ↔ b.latency - a.latency < b.latency / 10) ∧
      (WithinWindow b a ↔ b.latency - a.latency < a.latency / 10) := by
  constructor
  · rw [WithinWindow, abs_sub_comm, abs_of_pos (sub_pos.2 h)]
  · rw [WithinWindow, abs_of_pos (sub_pos.2 h)]

theorem overtakenBy_iff {a b : UpstreamHealth} :
    OvertakenBy a b ↔ (a.status = .down ↔ b.status = .down) ∧
      Overtaken latency priority WithinWindow a b := by
  constructor
  · intro h
    have hnear := (withinWindow_of_slower h.slower).1.2 h.within
    exact ⟨h.down_iff, h.slower, h.preferred, hnear⟩
  · rintro ⟨hdown, hover⟩
    have hwithin := (withinWindow_of_slower hover.key_lt).1.1 hover.near
    exact ⟨hdown, hover.key_lt, hover.rank_lt, hwithin⟩

/-- What overtakes is of the same class. -/
theorem OvertakenBy.orderClass_eq {a b : UpstreamHealth} (ha : a.Measured) (hb : b.Measured)
    (h : OvertakenBy a b) : a.orderClass = b.orderClass := by
  obtain ⟨hzero, hzero'⟩ := (overtakenBy_iff.1 h).2.near.ne_zero ha hb
  exact orderClass_eq_iff.2 ⟨h.down_iff, iff_of_false hzero hzero'⟩

/-- The windows of positive latencies hold what they should. -/
theorem windows_of_pos {s : Set UpstreamHealth} (h : ∀ e ∈ s, 0 < e.latency) :
    Windows latency WithinWindow s where
  of_eq a _ b hb heq := by
    rw [WithinWindow, heq, sub_self, abs_zero]
    linarith [h b hb]
  between a ha b hb c hc hab hbc := by
    simp only [WithinWindow, abs_lt]
    constructor <;> rintro ⟨h₁, h₂⟩ <;> refine ⟨⟨?_, ?_⟩, ?_, ?_⟩ <;>
      linarith [h a ha, h b hb, h c hc]

theorem windowsConsistent_pair {a b : UpstreamHealth} (hlt : a.latency < b.latency)
    (hboth : b.latency - a.latency < a.latency / 10) : WindowsConsistent {a, b} := by
  have hover : ∀ c ∈ ({a, b} : Set UpstreamHealth), ∀ d ∈ ({a, b} : Set UpstreamHealth),
      OvertakenBy c d → c = a ∧ d = b := by
    rintro c (rfl | rfl) d (rfl | rfl) h
    · exact absurd h.slower (lt_irrefl _)
    · exact ⟨rfl, rfl⟩
    · exact absurd h.slower hlt.not_gt
    · exact absurd h.slower (lt_irrefl _)
  constructor
  · intro c hc d hd h
    obtain ⟨rfl, rfl⟩ := hover c hc d hd h
    exact hboth
  · intro c hc d hd e he hcd hde
    have hd₁ := (hover c hc d hd hcd).2
    have hd₂ := (hover d hd e he hde).1
    exact absurd hlt (hd₂.symm.trans hd₁ ▸ lt_irrefl _)

/-- Whatever overtakes is of the class that it overtakes in. -/
theorem windowsConsistent_iff_class {entries : Set UpstreamHealth}
    (hmeasured : ∀ e ∈ entries, e.Measured) : WindowsConsistent entries ↔
      ∀ k, WindowsConsistent {e | e ∈ entries ∧ e.orderClass = k} := by
  constructor
  · intro h k
    constructor
    · exact fun a ha b hb => h.both a ha.1 b hb.1
    · exact fun a ha b hb c hc => h.trans a ha.1 b hb.1 c hc.1
  · intro h
    constructor
    · intro a ha b hb hab
      have hclass := hab.orderClass_eq (hmeasured a ha) (hmeasured b hb)
      exact (h b.orderClass).both a ⟨ha, hclass⟩ b ⟨hb, rfl⟩ hab
    · intro a ha b hb c hc hab hbc
      have hclass := hab.orderClass_eq (hmeasured a ha) (hmeasured b hb)
      have hclass' := hbc.orderClass_eq (hmeasured b hb) (hmeasured c hc)
      exact (h c.orderClass).trans a ⟨ha, hclass.trans hclass'⟩ b ⟨hb, hclass'⟩ c ⟨hc, rfl⟩ hab hbc

/-- Within a class the windows agree exactly when ten percent mean the same from both sides and
overtaking is transitive. -/
theorem windowsAgree_iff {s : Set UpstreamHealth}
    (hdown : ∀ a ∈ s, ∀ b ∈ s, a.status = .down ↔ b.status = .down) :
    WindowsAgree latency priority WithinWindow s ↔ WindowsConsistent s := by
  have hover : ∀ a ∈ s, ∀ b ∈ s,
      (Overtaken latency priority WithinWindow a b ↔ OvertakenBy a b) :=
    fun a ha b hb => (overtakenBy_iff.trans (and_iff_right (hdown a ha b hb))).symm
  constructor
  · intro hagree
    constructor
    · intro a ha b hb hab
      apply (withinWindow_of_slower hab.slower).2.1
      exact (hagree.near_comm a ha b hb hab.slower hab.preferred).1 ((hover a ha b hb).2 hab).near
    · intro a ha b hb c hc hab hbc
      have hac := hagree.trans a ha b hb c hc ((hover a ha b hb).2 hab) ((hover b hb c hc).2 hbc)
      exact ((hover a ha c hc).1 hac).within
  · intro hconsistent
    constructor
    · intro a ha b hb hlt hpref
      constructor
      · intro hnear
        apply (withinWindow_of_slower hlt).2.2
        exact hconsistent.both a ha b hb ((hover a ha b hb).1 ⟨hlt, hpref, hnear⟩)
      · intro hnear
        apply (withinWindow_of_slower hlt).1.2
        have := (withinWindow_of_slower hlt).2.1 hnear
        linarith
    · intro a ha b hb c hc hab hbc
      have hlt := hab.key_lt.trans hbc.key_lt
      refine ⟨hlt, hbc.rank_lt.trans hab.rank_lt, (withinWindow_of_slower hlt).1.2 ?_⟩
      exact hconsistent.trans a ha b hb c hc ((hover a ha b hb).1 hab) ((hover b hb c hc).1 hbc)

/-- The entries of a class all have a latency, or none has one. -/
theorem latency_of_orderClass {entries : Set UpstreamHealth}
    (hmeasured : ∀ e ∈ entries, e.Measured) (k : ℕ) :
    (∀ e ∈ {e | e ∈ entries ∧ e.orderClass = k}, 0 < e.latency) ∨
      ∀ e ∈ {e | e ∈ entries ∧ e.orderClass = k}, e.latency = 0 := by
  by_cases hzero : ∃ e ∈ entries, e.orderClass = k ∧ e.latency = 0
  · obtain ⟨e, -, hclass, hzero⟩ := hzero
    right
    rintro e' ⟨-, hclass'⟩
    exact (orderClass_eq_iff.1 (hclass'.trans hclass.symm)).2.2 hzero
  · left
    rintro e ⟨he, hclass⟩
    exact (hmeasured e he).2.lt_of_ne fun h => hzero ⟨e, he, hclass, h.symm⟩

/-- Entries without a latency are all the same to the comparison by windows. -/
theorem legalOrder_of_latency_eq_zero {s : Set UpstreamHealth} (hzero : ∀ e ∈ s, e.latency = 0) :
    LegalOrder (windowCompare latency priority WithinWindow) s ∧ WindowsConsistent s := by
  have hnot : ∀ a, ∀ b ∈ s, ¬WithinWindow a b := by
    intro a b hb
    rw [WithinWindow, hzero b hb, zero_div]
    exact (abs_nonneg _).not_gt
  have hover : ∀ a ∈ s, ∀ b ∈ s, ¬OvertakenBy a b := by
    intro a ha b hb h
    exact absurd h.slower (by simp [hzero a ha, hzero b hb])
  constructor
  · apply legalOrder_of_eq
    intro a ha b hb
    rw [windowCompare_of_not_near (hnot a b hb), hzero a ha, hzero b hb]
    rfl
  · constructor
    · exact fun a ha b hb h => absurd h (hover a ha b hb)
    · exact fun a ha b hb _ _ h => absurd h (hover a ha b hb)

theorem legalOrder_class_iff {entries : Set UpstreamHealth}
    (hmeasured : ∀ e ∈ entries, e.Measured) (k : ℕ) :
    LegalOrder (windowCompare latency priority WithinWindow)
        {e | e ∈ entries ∧ e.orderClass = k} ↔
      WindowsConsistent {e | e ∈ entries ∧ e.orderClass = k} := by
  rcases latency_of_orderClass hmeasured k with hpos | hzero
  · rw [legalOrder_windowCompare_iff (windows_of_pos hpos)]
    apply windowsAgree_iff
    rintro a ⟨-, ha⟩ b ⟨-, hb⟩
    exact (orderClass_eq_iff.1 (ha.trans hb.symm)).1
  · obtain ⟨hlegal, hconsistent⟩ := legalOrder_of_latency_eq_zero hzero
    exact iff_of_true hlegal hconsistent

/-- The comparison of `sorted_by_latency` is a legal one exactly when ten percent mean the same
from both sides and overtaking is transitive. -/
theorem legalOrder_latencyOrder_iff (entries : Set UpstreamHealth)
    (hmeasured : ∀ e ∈ entries, e.Measured) :
    LegalOrder latencyOrder entries ↔ WindowsConsistent entries := by
  have hclasses : ClassesFirst orderClass latencyOrder
      (windowCompare latency priority WithinWindow) entries :=
    fun a ha b hb => latencyOrder_eq (hmeasured a ha) (hmeasured b hb)
  rw [legalOrder_then_iff hclasses, windowsConsistent_iff_class hmeasured]
  exact forall_congr' (legalOrder_class_iff hmeasured)

/-- An entry with a latency. -/
def probed (url : Str) (priority : ℤ) (latency : ℚ) : UpstreamHealth :=
  { new url priority with emaLatency := .fin latency, totalQueries := 1 }

theorem measured_probed {url : Str} {priority : ℤ} {latency : ℚ} (h : 0 ≤ latency) :
    (probed url priority latency).Measured :=
  ⟨rfl, h⟩

/-- Two entries within ten percent of the faster one can be sorted. -/
theorem legalOrder_latencyOrder_pair :
    LegalOrder latencyOrder
      {probed "https://low".toList 10 100, probed "https://high".toList 1 103} := by
  apply (legalOrder_latencyOrder_iff _ ?_).2
  · apply windowsConsistent_pair <;> norm_num [probed, latency, Double.toRat]
  · rintro e (rfl | rfl)
    · exact measured_probed (by norm_num)
    · exact measured_probed (by norm_num)

/-- Each of two entries comes after the other. -/
theorem latencyOrder_probed_gt :
    ∃ a b : UpstreamHealth, a = probed "https://fast".toList 2 100 ∧
      b = probed "https://slow".toList 1 111 ∧ a.Measured ∧ b.Measured ∧
      latencyOrder a b = .gt ∧ latencyOrder b a = .gt := by
  refine ⟨_, _, rfl, rfl, measured_probed (by norm_num), measured_probed (by norm_num), ?_, ?_⟩
  · decide +kernel
  · decide +kernel

end UpstreamHealth

end Ncro

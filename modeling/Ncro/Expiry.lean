import Ncro.Foundation.Checks
import Ncro.Mesh.Announce
import Ncro.Mesh.ExpiredRows

/-!
# The second in which a route ends

The rows of the database say in whole seconds when they end. The queries compare them with
the truncated clock, the readers of a route with the clock itself, and the clean-up lets
a row stand for the second in which it ends: `validity_agrees`.
-/

namespace Ncro

open Foundation

/-- The time of a row that can be read is the end of the route. -/
theorem asSecond_lt_ttl_iff {row : RouteRow} {entry : RouteEntry}
    (hread : rowToRoute row = .ok entry) {now : Timestamp} (hepoch : 0 ≤ now.asNanosecond) :
    now.asSecond < row.ttl ↔ entry.isValid now = true := by
  rw [← RouteRow.unexpired_eq_isValid hread, RouteRow.unexpired, decide_eq_true_iff]
  exact Timestamp.asSecond_lt_iff hepoch

theorem isValid_anti {entry : RouteEntry} {now later : Timestamp} (hle : now ≤ later)
    (h : entry.isValid now = false) : entry.isValid later = false := by
  rw [RouteEntry.isValid, decide_eq_false_iff_not] at h ⊢
  exact fun hlater => h (lt_of_le_of_lt hle hlater)

/-- From the epoch on, the truncated clock does not go back when the clock does not. -/
theorem asSecond_mono {now later : Timestamp} (hepoch : 0 ≤ now.asNanosecond) (hle : now ≤ later) :
    now.asSecond ≤ later.asSecond := by
  have hle' : now.asNanosecond ≤ later.asNanosecond := hle
  by_contra hlt
  have hbefore := (Timestamp.asSecond_lt_iff (le_trans hepoch hle')).1 (not_le.1 hlt)
  have hstart := Timestamp.asSecond_mul_le hepoch
  exact absurd (lt_of_lt_of_le hbefore (le_trans hstart hle')) (lt_irrefl _)

/-! ## The queries -/

/-- What the readers and the clean-up make of a row and of the route that it is read back as. -/
structure RouteTable.AgreeOn (routes : RouteTable) (now : Timestamp) (row : RouteRow)
    (entry : RouteEntry) : Prop where
  condition : now.asSecond < row.ttl ↔ entry.isValid now = true
  /-- The lookup of a NAR may find the route. -/
  byNarUrl : routes.GetRouteByNarUrl now row.narUrl (.ok (some entry)) ↔ entry.isValid now = true
  /-- Gossip lists no other routes, and all of them when there is room. -/
  listed : ∀ n listed, routes.ListRecentRoutes now n (.ok listed) →
    (entry ∈ listed → entry.isValid now = true) ∧
      (routes.rows.length ≤ n → entry.isValid now = true → entry ∈ listed)
  /-- A row that is deleted will not be served again. -/
  deleted : row ∉ (routes.expireOldRoutes now).rows →
    ∀ later, now ≤ later → entry.isValid later = false

section

variable {routes : RouteTable} {now : Timestamp} {row : RouteRow} {entry : RouteEntry}

theorem getRouteByNarUrl_iff (hrow : row ∈ routes.rows) (hread : rowToRoute row = .ok entry)
    (hepoch : 0 ≤ now.asNanosecond) :
    routes.GetRouteByNarUrl now row.narUrl (.ok (some entry)) ↔ entry.isValid now = true := by
  constructor
  · rintro (⟨found, -, -, hlive, hreply⟩ | ⟨-, hnone⟩)
    · cases hfound : rowToRoute found with
      | error err =>
          rw [hfound] at hreply
          cases hreply
      | ok route =>
          rw [hfound] at hreply
          cases hreply
          exact (asSecond_lt_ttl_iff hfound hepoch).1 hlive
    · cases hnone
  · intro hvalid
    have hlive := (asSecond_lt_ttl_iff hread hepoch).2 hvalid
    exact .inl ⟨row, hrow, rfl, hlive, by rw [hread]; rfl⟩

/-- A listed route was read from a live row. -/
theorem isValid_of_mem_listed {n : ℕ} {listed : List RouteEntry}
    (hlist : routes.ListRecentRoutes now n (.ok listed)) (hepoch : 0 ≤ now.asNanosecond)
    (hmem : entry ∈ listed) : entry.isValid now = true := by
  rcases hlist with ⟨sorted, hperm, -, hreply⟩
  rcases (mem_of_mapM_eq_ok hreply.symm).1 hmem with ⟨found, hfound, hread⟩
  have hlive := (List.mem_filter.1 (hperm.subset (List.mem_of_mem_take hfound))).2
  exact (asSecond_lt_ttl_iff hread hepoch).1 (of_decide_eq_true hlive)

/-- Without a bound in the way every valid route is listed. -/
theorem mem_listed_of_isValid {n : ℕ} {listed : List RouteEntry}
    (hlist : routes.ListRecentRoutes now n (.ok listed)) (hepoch : 0 ≤ now.asNanosecond)
    (hrow : row ∈ routes.rows) (hread : rowToRoute row = .ok entry)
    (hroom : routes.rows.length ≤ n) (hvalid : entry.isValid now = true) : entry ∈ listed := by
  rcases hlist with ⟨sorted, hperm, -, hreply⟩
  have hlength : sorted.length ≤ n :=
    hperm.length_eq.trans_le (List.length_filter_le _ _) |>.trans hroom
  rw [List.take_of_length_le hlength] at hreply
  have hlive := (asSecond_lt_ttl_iff hread hepoch).2 hvalid
  have hmem : row ∈ sorted := hperm.mem_iff.2 (List.mem_filter.2 ⟨hrow, decide_eq_true hlive⟩)
  exact (mem_of_mapM_eq_ok hreply.symm).2 ⟨row, hmem, hread⟩

theorem isValid_of_deleted (hepoch : 0 ≤ now.asNanosecond) (hrow : row ∈ routes.rows)
    (hread : rowToRoute row = .ok entry) (hdeleted : row ∉ (routes.expireOldRoutes now).rows) :
    entry.isValid now = false := by
  rw [RouteTable.expireOldRoutes, Table.mem_filter, not_and] at hdeleted
  have hended : row.ttl < now.asSecond := by simpa using hdeleted hrow
  rw [Bool.eq_false_iff, ne_eq, ← asSecond_lt_ttl_iff hread hepoch]
  exact not_lt_of_gt hended

end

/-- From the epoch on, the lookup of a NAR and gossip take exactly the rows that are read back
as valid routes, the clean-up deletes none of them, and no absence that is still served. -/
theorem validity_agrees (now : Timestamp) (hepoch : 0 ≤ now.asNanosecond) :
    (∀ (routes : RouteTable) (row : RouteRow) (entry : RouteEntry), row ∈ routes.rows →
        rowToRoute row = .ok entry → routes.AgreeOn now row entry) ∧
      ∀ (negatives : NegativeTable) (absence : Str × ℤ), absence ∈ negatives.rows →
        absence ∉ (negatives.expireNegatives now).rows →
        ∀ later, now ≤ later → negatives.isNegative later absence.1 = false := by
  constructor
  · intro routes row entry hrow hread
    constructor
    · exact asSecond_lt_ttl_iff hread hepoch
    · exact getRouteByNarUrl_iff hrow hread hepoch
    · intro n listed hlist
      constructor
      · exact isValid_of_mem_listed hlist hepoch
      · exact mem_listed_of_isValid hlist hepoch hrow hread
    · intro hdeleted later hle
      exact isValid_anti hle (isValid_of_deleted hepoch hrow hread hdeleted)
  · intro negatives absence hmem hdeleted later hle
    rw [NegativeTable.expireNegatives, Table.mem_filter, not_and] at hdeleted
    have hended : absence.2 < now.asSecond := by simpa using hdeleted hmem
    rw [NegativeTable.isNegative, Table.mem_rows_iff.1 hmem, decide_eq_false_iff_not]
    exact not_lt_of_gt (lt_of_lt_of_le hended (asSecond_mono hepoch hle))

/-- Half a second after the epoch. -/
def halfSecond : Timestamp := ⟨5 * 10 ^ 8, by decide, by decide⟩

/-- Half a second before its end the row of an upstream is live for all of them. -/
theorem validity_agrees_halfSecond :
    RouteTable.AgreeOn (Table.upsert ∅ (routeToRow rowOfU)) halfSecond (routeToRow rowOfU) rowOfU ∧
      NegativeTable.isNegative (Table.upsert ∅ ("h".toList, -1)) halfSecond "h".toList = false := by
  have hboth := validity_agrees halfSecond (by decide)
  constructor
  · exact hboth.1 _ _ _ (.head _) (by decide)
  · exact hboth.2 _ ("h".toList, -1) (.head _) (by decide) halfSecond (le_refl _)

end Ncro

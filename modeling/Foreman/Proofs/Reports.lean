import Foreman.Proofs.Dealing

/-!
# Counting reports

An assembly takes its results to be complete as soon as there are as many of them as partitions, and does not look
whose they are. As long as only partitions that there are report, this is enough: what reports twice counts once,
so as many results as partitions are one from each (`counting_reports_suffices`).
-/

namespace Foreman

-- Numbers below a bound are as many as the bound only if none is left out.
theorem Results.size_eq_iff {n : Nat} {results : Results} (h : ∀ i, i ∈ results → i < n) :
    results.size = n ↔ ∀ i, i < n → i ∈ results := by
  have hnodup : results.keys.Nodup := Std.ExtTreeMap.nodup_keys
  have hsub : results.keys ⊆ List.range n := by
    intro i hi
    exact List.mem_range.2 (h i (Std.ExtTreeMap.mem_keys.1 hi))
  rw [← Std.ExtTreeMap.length_keys]
  constructor
  · intro hsize i hi
    have hperm : results.keys.Perm (List.range n) := by
      apply (hnodup.subperm hsub).perm_of_length_le
      rw [hsize, List.length_range]
    exact Std.ExtTreeMap.mem_keys.1 (hperm.mem_iff.2 (List.mem_range.2 hi))
  · intro hall
    have hperm : results.keys.Perm (List.range n) := by
      rw [List.perm_ext_iff_of_nodup hnodup List.nodup_range]
      intro i
      rw [Std.ExtTreeMap.mem_keys, List.mem_range]
      exact ⟨h i, hall i⟩
    rw [hperm.length_eq, List.length_range]

namespace Assembly

/-! ## 1. Demands and reports -/

/-- The number of partitions that a move demands. -/
def Move.demand? : Move → Option Nat
  | .deal n => some n
  | _ => none

/-- The value that a move reports for a partition. -/
def Move.reportOf? (i : Nat) : Move → Option String
  | .report partition value => if partition = i then some value else none
  | _ => none

/-- The demands among moves, in their order. -/
def demands (moves : List Move) : List Nat :=
  moves.filterMap Move.demand?

/-- The values that are reported for a partition, in their order. -/
def reports (i : Nat) (moves : List Move) : List String :=
  moves.filterMap (Move.reportOf? i)

/-- The first demand is for `n` partitions, and only these report. -/
structure Fits (n : Nat) (moves : List Move) : Prop where
  first : ∀ m, (demands moves).head? = some m → m = n
  known : ∀ i value, .report i value ∈ moves → i < n

theorem demands_ne_nil_iff {moves : List Move} : demands moves ≠ [] ↔ ∃ n, .deal n ∈ moves := by
  rw [ne_eq, demands, List.filterMap_eq_nil_iff]
  push Not
  constructor
  · rintro ⟨m, hm, hdemand⟩
    cases m with
    | deal n => exact ⟨n, hm⟩
    | gather | report => exact absurd rfl hdemand
  · rintro ⟨n, hm⟩
    exact ⟨_, hm, Option.some_ne_none n⟩

theorem reports_ne_nil_iff {i : Nat} {moves : List Move} :
    reports i moves ≠ [] ↔ ∃ value, .report i value ∈ moves := by
  rw [ne_eq, reports, List.filterMap_eq_nil_iff]
  push Not
  constructor
  · rintro ⟨m, hm, hreport⟩
    cases m with
    | report partition value =>
      have hi : partition = i := by
        by_contra hne
        exact hreport (if_neg hne)
      exact ⟨value, hi ▸ hm⟩
    | gather | deal => exact absurd rfl hreport
  · rintro ⟨value, hm⟩
    exact ⟨_, hm, by simp [Move.reportOf?]⟩

/-! ## 2. What moves leave -/

section

variable {a a' : Assembly}

theorem deal?_eq_ok {n : Nat} {ps : List Partition} (h : a.deal? n = .ok (ps, a')) :
    a'.results = a.results ∧
      a'.partitions.map List.length = (a.partitions.map List.length).or (some n) := by
  unfold deal? at h
  cases hps : a.partitions with
  | some old =>
    rw [hps, Option.isSome_some, if_pos rfl, deal_of_partitions hps, Except.ok.injEq] at h
    cases h
    exact ⟨rfl, by rw [hps]; rfl⟩
  | none =>
    rw [hps, Option.isSome_none, if_neg Bool.false_ne_true] at h
    split_ifs at h
    simp only [deal, hps] at h
    cases h
    exact ⟨rfl, congrArg some (Partition.length_deal n a.buffer)⟩

-- A report takes the place of an earlier one, and only the first demand fixes how many partitions there are.
theorem make_eq_ok {m : Move} {answer : Option (List Partition)} (h : a.make m = .ok (answer, a')) :
    (∀ i, a'.results[i]? = (m.reportOf? i).or a.results[i]?) ∧
      a'.partitions.map List.length = (a.partitions.map List.length).or m.demand? := by
  cases m with
  | gather rs =>
    cases h
    exact ⟨fun _ => rfl, (Option.or_none).symm⟩
  | report partition value =>
    cases h
    refine ⟨fun i => ?_, (Option.or_none).symm⟩
    show (a.results.insert partition value)[i]? = _
    rw [Std.ExtTreeMap.getElem?_insert]
    by_cases hi : partition = i
    · simp [Move.reportOf?, hi]
    · simp [Move.reportOf?, hi]
  | deal n =>
    simp only [make] at h
    cases hdeal : a.deal? n with
    | error f =>
      rw [hdeal] at h
      cases h
    | ok made =>
      rw [hdeal] at h
      cases h
      obtain ⟨hresults, hlength⟩ := deal?_eq_ok hdeal
      exact ⟨fun i => by rw [hresults]; rfl, hlength⟩

theorem makeAll_cons_eq_ok {m : Move} {moves : List Move} {dealt : List (List Partition)}
    (h : a.makeAll (m :: moves) = .ok (dealt, a')) : ∃ answer next rest, a.make m = .ok (answer, next) ∧
      next.makeAll moves = .ok (rest, a') ∧ dealt = answer.toList ++ rest := by
  unfold makeAll at h
  cases hmake : a.make m with
  | error f =>
    rw [hmake] at h
    cases h
  | ok made =>
    obtain ⟨answer, next⟩ := made
    simp only [hmake] at h
    cases hrest : next.makeAll moves with
    | error f =>
      rw [hrest] at h
      cases h
    | ok rest =>
      rw [hrest] at h
      cases h
      exact ⟨answer, next, _, rfl, hrest, rfl⟩

theorem makeAll_eq_ok {moves : List Move} {dealt : List (List Partition)}
    (h : a.makeAll moves = .ok (dealt, a')) :
    (∀ i, a'.results[i]? = (reports i moves).getLast?.or a.results[i]?) ∧
      a'.partitions.map List.length = (a.partitions.map List.length).or (demands moves).head? := by
  induction moves generalizing a dealt with
  | nil =>
    cases h
    exact ⟨fun _ => rfl, (Option.or_none).symm⟩
  | cons m moves ih =>
    obtain ⟨answer, next, rest, hmake, hrest, rfl⟩ := makeAll_cons_eq_ok h
    obtain ⟨hresults, hlength⟩ := make_eq_ok hmake
    obtain ⟨hresults', hlength'⟩ := ih hrest
    refine ⟨fun i => ?_, ?_⟩
    · rw [hresults', hresults, reports, reports, List.filterMap_cons]
      cases m.reportOf? i with
      | none => rfl
      | some value =>
        rw [List.getLast?_cons]
        cases (moves.filterMap (Move.reportOf? i)).getLast? <;> rfl
    · rw [hlength', hlength, Option.or_assoc, demands, demands, List.filterMap_cons]
      cases m.demand? <;> rfl

end

/-! ## 3. Moves without a fault -/

section

variable {a : Assembly} {n : Nat} {moves : List Move}

theorem makeAll_cons_ok {m : Move} {answer : Option (List Partition)} {next : Assembly}
    (h : a.make m = .ok (answer, next)) (hrest : ∃ dealt a', next.makeAll moves = .ok (dealt, a')) :
    ∃ dealt a', a.makeAll (m :: moves) = .ok (dealt, a') := by
  obtain ⟨dealt, a', hrest⟩ := hrest
  exact ⟨answer.toList ++ dealt, a', by simp only [makeAll, h, hrest]⟩

-- Only a demand can be a fault, and after the first one none is.
theorem makeAll_isOk (hn : 0 < n) (hfirst : ∀ m, (demands moves).head? = some m → m = n)
    (hmax : demands moves ≠ [] → n ≤ maxPartitions) : ∃ dealt a', a.makeAll moves = .ok (dealt, a') := by
  induction moves generalizing a with
  | nil => exact ⟨_, _, rfl⟩
  | cons m moves ih =>
    cases m with
    | gather rs => exact makeAll_cons_ok rfl (ih hfirst hmax)
    | report partition value => exact makeAll_cons_ok rfl (ih hfirst hmax)
    | deal m =>
      obtain rfl : m = n := hfirst m rfl
      cases hps : a.partitions with
      | some ps =>
        obtain ⟨a', h⟩ := makeAll_of_partitions hps (.deal m :: moves)
        exact ⟨_, a', h⟩
      | none =>
        have hdeal := deal?_of_partitions_eq_none hps hn
        rw [if_neg (Nat.not_lt.2 (hmax (List.cons_ne_nil _ _)))] at hdeal
        have hmake : a.make (.deal m) = .ok (some (Partition.deal m a.buffer),
            { a with buffer := [], partitions := some (Partition.deal m a.buffer) }) := by
          simp only [make, hdeal]
        exact makeAll_cons_ok hmake ⟨_, makeAll_of_partitions rfl moves⟩

theorem makeAll_tooManyPartitions (hps : a.partitions = none) (hmax : maxPartitions < n)
    (hfirst : (demands moves).head? = some n) : a.makeAll moves = .error .tooManyPartitions := by
  induction moves generalizing a with
  | nil => cases hfirst
  | cons m moves ih =>
    cases m with
    | gather rs => simp only [makeAll, make, ih (a := a.addRecords rs) hps hfirst]
    | report partition value => simp only [makeAll, make, ih (a := a.addResult partition value) hps hfirst]
    | deal m =>
      cases hfirst
      have hdeal := deal?_of_partitions_eq_none hps (Nat.zero_lt_of_lt hmax)
      rw [if_pos hmax] at hdeal
      simp only [makeAll, make, hdeal]

end

/-! ## 4. Complete results -/

section

variable {a : Assembly} {n : Nat} {moves : List Move} {dealt : List (List Partition)}

theorem getElem?_results (h : empty.makeAll moves = .ok (dealt, a)) (i : Nat) :
    a.results[i]? = (reports i moves).getLast? := by
  rw [(makeAll_eq_ok h).1 i]
  exact Option.or_none

theorem mem_results_iff (h : empty.makeAll moves = .ok (dealt, a)) (i : Nat) :
    i ∈ a.results ↔ ∃ value, .report i value ∈ moves := by
  rw [Std.ExtTreeMap.mem_iff_isSome_getElem?, getElem?_results h, List.getLast?_isSome, reports_ne_nil_iff]

theorem isSome_partitions_iff (h : empty.makeAll moves = .ok (dealt, a)) :
    a.partitions.isSome ↔ ∃ m, .deal m ∈ moves := by
  have hlength : a.partitions.map List.length = (demands moves).head? := (makeAll_eq_ok h).2
  rw [← demands_ne_nil_iff, ← List.isSome_head?, ← hlength, Option.isSome_map]

-- The assembly counts, and counts right.
theorem allResults?_eq_some_iff (hfits : Fits n moves) (h : empty.makeAll moves = .ok (dealt, a))
    {results : Results} : a.allResults? = some results ↔ a.results = results ∧
      (∃ m, .deal m ∈ moves) ∧ ∀ i, i < n → ∃ value, .report i value ∈ moves := by
  have hlength : a.partitions.map List.length = (demands moves).head? := (makeAll_eq_ok h).2
  have hknown : ∀ i, i ∈ a.results → i < n := by
    intro i hi
    obtain ⟨value, hvalue⟩ := (mem_results_iff h i).1 hi
    exact hfits.known i value hvalue
  rw [← demands_ne_nil_iff]
  unfold allResults?
  cases hps : a.partitions with
  | none =>
    rw [hps] at hlength
    have hnil : demands moves = [] := List.head?_eq_none_iff.1 hlength.symm
    simp [hnil]
  | some ps =>
    rw [hps] at hlength
    have hne : demands moves ≠ [] := by
      intro hnil
      rw [hnil] at hlength
      cases hlength
    have hn : ps.length = n := hfits.first _ hlength.symm
    simp only [hn, Option.ite_none_right_eq_some, Option.some.injEq, Results.size_eq_iff hknown,
      mem_results_iff h]
    tauto

theorem isSome_allResults?_iff (hfits : Fits n moves) (h : empty.makeAll moves = .ok (dealt, a)) :
    a.allResults?.isSome ↔
      (∃ m, .deal m ∈ moves) ∧ ∀ i, i < n → ∃ value, .report i value ∈ moves := by
  rw [Option.isSome_iff_exists]
  simp only [allResults?_eq_some_iff hfits h, exists_and_right, exists_eq', true_and]

theorem Fits.append {later : List Move} (h : Fits n moves) (hdeal : ∃ m, .deal m ∈ moves)
    (hlater : ∀ i value, .report i value ∈ later → i < n) : Fits n (moves ++ later) where
  first m hm := by
    have happend : demands (moves ++ later) = demands moves ++ demands later := List.filterMap_append
    rw [happend, List.head?_append_of_ne_nil _ (demands_ne_nil_iff.2 hdeal)] at hm
    exact h.first m hm
  known i value hmem := (List.mem_append.1 hmem).elim (h.known i value) (hlater i value)

end

-- Moves that follow are made by the assembly that the moves before them have left.
theorem makeAll_append {a b c : Assembly} {first second : List Move} {dealt more : List (List Partition)}
    (h : a.makeAll first = .ok (dealt, b)) (h' : b.makeAll second = .ok (more, c)) :
    a.makeAll (first ++ second) = .ok (dealt ++ more, c) := by
  induction first generalizing a dealt with
  | nil =>
    cases h
    exact h'
  | cons m first ih =>
    obtain ⟨answer, next, rest, hmake, hrest, rfl⟩ := makeAll_cons_eq_ok h
    rw [List.cons_append, makeAll, hmake, List.append_assoc]
    simp only [ih hrest]

/-- An assembly takes moves of which the first demand is for `n` partitions, and only these report, in any order
and as often as they like. No move is a fault, unless more partitions are demanded than can be addressed. The
results are complete just when the records have been dealt out and every partition has reported. They are then the
last reports of these partitions and nothing else, and stay complete whatever is gathered, demanded and reported
later. -/
theorem counting_reports_suffices {n : Nat} (hn : 0 < n) {moves : List Move} (h : Fits n moves) :
    (maxPartitions < n → (∃ m, .deal m ∈ moves) → empty.makeAll moves = .error .tooManyPartitions) ∧
    (n ≤ maxPartitions ∨ (∀ m, .deal m ∉ moves) → ∃ dealt a, empty.makeAll moves = .ok (dealt, a) ∧
      (a.allResults?.isSome ↔ (∃ m, .deal m ∈ moves) ∧ ∀ i, i < n → ∃ value, .report i value ∈ moves) ∧
      (∀ results, a.allResults? = some results → ∀ i,
        (i ∈ results ↔ i < n) ∧ results[i]? = (reports i moves).getLast?) ∧
      (a.allResults?.isSome → ∀ later, (∀ i value, .report i value ∈ later → i < n) →
        ∃ more a', a.makeAll later = .ok (more, a') ∧ a'.allResults?.isSome)) := by
  constructor
  · intro hmax hdeal
    cases hhead : (demands moves).head? with
    | none => exact absurd (List.head?_eq_none_iff.1 hhead) (demands_ne_nil_iff.2 hdeal)
    | some m =>
      obtain rfl : m = n := h.first m hhead
      exact makeAll_tooManyPartitions rfl hmax hhead
  intro hbound
  have hmax : demands moves ≠ [] → n ≤ maxPartitions := by
    intro hne
    obtain ⟨m, hm⟩ := demands_ne_nil_iff.1 hne
    exact hbound.resolve_right fun hnone => hnone m hm
  obtain ⟨dealt, a, hmoves⟩ := makeAll_isOk (a := empty) hn h.first hmax
  have hcomplete := isSome_allResults?_iff h hmoves
  refine ⟨dealt, a, hmoves, hcomplete, ?_, ?_⟩
  · intro results hresults i
    obtain ⟨rfl, -, hall⟩ := (allResults?_eq_some_iff h hmoves).1 hresults
    rw [mem_results_iff hmoves]
    refine ⟨⟨?_, hall i⟩, getElem?_results hmoves i⟩
    rintro ⟨value, hvalue⟩
    exact h.known i value hvalue
  · intro hsome later hlater
    obtain ⟨hdeal, hall⟩ := hcomplete.1 hsome
    obtain ⟨ps, hps⟩ := Option.isSome_iff_exists.1 ((isSome_partitions_iff hmoves).2 hdeal)
    obtain ⟨a', hrest⟩ := makeAll_of_partitions hps later
    refine ⟨_, a', hrest, ?_⟩
    rw [isSome_allResults?_iff (h.append hdeal hlater) (makeAll_append hmoves hrest)]
    obtain ⟨m, hm⟩ := hdeal
    refine ⟨⟨m, List.mem_append_left later hm⟩, fun i hi => ?_⟩
    obtain ⟨value, hvalue⟩ := hall i hi
    exact ⟨value, List.mem_append_left later hvalue⟩

/-- The second partition reports before the records are dealt out, and again after the first one. -/
def twoReports : List Move :=
  [.report 1 "b=1", .deal 2, .deal 7, .report 0 "a=1", .report 1 "b=2"]

theorem last_reports_of_two_partitions :
    0 < 2 ∧ Fits 2 twoReports ∧ ∃ dealt a results, empty.makeAll twoReports = .ok (dealt, a) ∧
      a.allResults? = some results ∧ results[0]? = some "a=1" ∧ results[1]? = some "b=2" ∧ 2 ∉ results := by
  have hfits : Fits 2 twoReports := by
    constructor
    · rintro m ⟨⟩
      rfl
    · intro i value hmem
      simp [twoReports] at hmem
      omega
  have hall : ∀ i, i < 2 → ∃ value, .report i value ∈ twoReports := by
    rintro (_ | _ | i) hi
    · exact ⟨"a=1", by simp [twoReports]⟩
    · exact ⟨"b=1", by simp [twoReports]⟩
    · omega
  obtain ⟨dealt, a, hmoves, hcomplete, hlast, -⟩ :=
    (counting_reports_suffices (by decide) hfits).2 (.inl (by decide))
  obtain ⟨results, hresults⟩ := Option.isSome_iff_exists.1 (hcomplete.2 ⟨⟨2, by simp [twoReports]⟩, hall⟩)
  have hreports := hlast results hresults
  refine ⟨by decide, hfits, dealt, a, results, hmoves, hresults, (hreports 0).2, (hreports 1).2, ?_⟩
  exact fun h => absurd ((hreports 2).1.1 h) (by decide)

end Assembly
end Foreman

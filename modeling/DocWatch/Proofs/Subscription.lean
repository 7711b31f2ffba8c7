import DocWatch.Subscription
import Mathlib.Data.List.Nodup

/-!
# Who is told what

An observer is subscribed to a query at most once (`Subscriptions.Unique`), so that the
subscriptions are a partial function from query and observer to tag (`Subscriptions.tagOf`), and
observing and stopping change that function in one point. When queries are affected, the hits are
collected in one pass, observer by observer; `Subscriptions.Grouped` is what that pass keeps: one
group for each observer that was met, with its hits in the order in which they were met.

- `tagOf_observe`, `tagOf_stop`: the function after a subscription and after its end.
- `grouped_hits`: the pass over the affected queries.
- `messages_invalidations`: an observer with a subscription to an affected query gets one message
  with all of its hits; any other gets none.
-/

namespace DocWatch.Subscriptions

/-! ## Subscriptions as a function -/

/-- Is this the subscription of an observer of a given identity to a query? -/
def isOf (query : QueryId) (identity : Nat) (s : Subscription) : Bool :=
  s.query == query && s.observer.identity == identity

theorem isOf_iff (query : QueryId) (identity : Nat) (s : Subscription) :
    isOf query identity s = true ↔ s.query = query ∧ s.observer.identity = identity := by
  rw [isOf, Bool.and_eq_true, beq_iff_eq, beq_iff_eq]

theorem concerns_eq (query : QueryId) (observer : Observer) :
    concerns query observer = isOf query observer.identity := rfl

/-- The tag of the subscription of an observer to a query, if there is one. -/
def tagOf (ss : Subscriptions) (query : QueryId) (identity : Nat) : Option (Option String) :=
  (List.find? (isOf query identity) ss).map Subscription.tag

/-- No observer is subscribed to a query twice. -/
def Unique (ss : Subscriptions) : Prop :=
  ss.Pairwise fun s t => ¬ (s.query = t.query ∧ s.observer.identity = t.observer.identity)

theorem tagOf_isSome_iff (ss : Subscriptions) (query : QueryId) (identity : Nat) :
    (ss.tagOf query identity).isSome = true ↔
      ∃ s ∈ ss, s.query = query ∧ s.observer.identity = identity := by
  rw [tagOf, Option.isSome_map, List.find?_isSome]
  exact exists_congr fun s => and_congr_right fun _ => isOf_iff query identity s

theorem unique_observe {ss : Subscriptions} (h : ss.Unique) (query : QueryId)
    (observer : Observer) (tag : Option String) : (ss.observe query observer tag).2.Unique := by
  unfold observe
  by_cases hany : ss.any (concerns query observer) = true
  · rw [if_pos hany]
    exact h
  · rw [if_neg hany]
    refine List.pairwise_append.mpr ⟨h, List.pairwise_singleton _ _, fun s hs t ht heq => ?_⟩
    rw [List.mem_singleton.mp ht] at heq
    refine hany (List.any_eq_true.mpr ⟨s, hs, ?_⟩)
    exact (isOf_iff query observer.identity s).mpr heq

theorem unique_stop {ss : Subscriptions} (h : ss.Unique) (query : QueryId) (observer : Observer) :
    (ss.stop query observer).2.Unique :=
  h.sublist List.eraseP_sublist

/-- Observing sets the tag of an observer that is not yet subscribed, and changes no other. -/
theorem tagOf_observe (ss : Subscriptions) (query query' : QueryId) (observer : Observer)
    (tag : Option String) (identity : Nat) :
    (ss.observe query observer tag).2.tagOf query' identity =
      if query = query' ∧ observer.identity = identity
        then (ss.tagOf query' identity).or (some tag)
        else ss.tagOf query' identity := by
  unfold observe
  by_cases hany : ss.any (concerns query observer) = true
  · rw [if_pos hany]
    by_cases hpoint : query = query' ∧ observer.identity = identity
    -- already subscribed, so the first tag stays
    · obtain ⟨rfl, rfl⟩ := hpoint
      rw [concerns_eq, List.any_eq_true] at hany
      obtain ⟨s, hs, his⟩ := hany
      have hsome := (tagOf_isSome_iff ss query observer.identity).mpr
        ⟨s, hs, (isOf_iff _ _ s).mp his⟩
      rw [if_pos ⟨rfl, rfl⟩, Option.or_of_isSome hsome]
    · rw [if_neg hpoint]
  · rw [if_neg hany, tagOf, tagOf, List.find?_append]
    by_cases hpoint : query = query' ∧ observer.identity = identity
    -- not subscribed, so the new one is found behind the others
    · obtain ⟨rfl, rfl⟩ := hpoint
      rw [concerns_eq] at hany
      have hnone : List.find? (isOf query observer.identity) ss = none := by
        rw [List.find?_eq_none]
        exact fun s hs his => hany (List.any_eq_true.mpr ⟨s, hs, his⟩)
      rw [if_pos ⟨rfl, rfl⟩, hnone]
      simp [isOf]
    · have hother : isOf query' identity ⟨query, observer, tag⟩ = false := by
        rw [Bool.eq_false_iff]
        exact fun his => hpoint ((isOf_iff _ _ _).mp his)
      rw [if_neg hpoint, List.find?_cons_of_neg (by rw [hother]; exact Bool.false_ne_true),
        List.find?_nil, Option.or_none]

/-- At most one element of a list satisfies a predicate that no two of them share. -/
theorem filter_eq_toList_find? {α : Type} (p : α → Bool) (l : List α)
    (h : l.Pairwise fun a b => ¬ (p a = true ∧ p b = true)) :
    l.filter p = (l.find? p).toList := by
  induction l with
  | nil => rfl
  | cons a rest ih =>
    obtain ⟨ha, hrest⟩ := List.pairwise_cons.mp h
    by_cases hp : p a = true
    · rw [List.filter_cons_of_pos hp, List.find?_cons_of_pos hp]
      have hnil : rest.filter p = [] := by
        rw [List.filter_eq_nil_iff]
        exact fun b hb hpb => ha b hb ⟨hp, hpb⟩
      rw [hnil]
      rfl
    · rw [List.filter_cons_of_neg hp, List.find?_cons_of_neg hp, ih hrest]

/-- With unique subscriptions, those of one observer to one query are given by the tag. -/
theorem filter_isOf {ss : Subscriptions} (h : ss.Unique) (query : QueryId) (identity : Nat) :
    List.filter (isOf query identity) ss = (List.find? (isOf query identity) ss).toList := by
  refine filter_eq_toList_find? _ _ (h.imp fun {s t} hne hboth => hne ?_)
  obtain ⟨hs, ht⟩ := hboth
  rw [isOf_iff] at hs ht
  exact ⟨hs.1.trans ht.1.symm, hs.2.trans ht.2.symm⟩

/-- Stopping takes one point out of the function. -/
theorem tagOf_stop {ss : Subscriptions} (h : ss.Unique) (query query' : QueryId)
    (observer : Observer) (identity : Nat) :
    (ss.stop query observer).2.tagOf query' identity =
      if query = query' ∧ observer.identity = identity then none
        else ss.tagOf query' identity := by
  show tagOf (ss.eraseP (concerns query observer)) query' identity = _
  rw [concerns_eq]
  induction ss with
  | nil => simp [tagOf]
  | cons s rest ih =>
    obtain ⟨hs, hrest⟩ := List.pairwise_cons.mp h
    by_cases his : isOf query observer.identity s = true
    · rw [List.eraseP_cons_of_pos his]
      obtain ⟨hq, ho⟩ := (isOf_iff _ _ s).mp his
      by_cases hpoint : query = query' ∧ observer.identity = identity
      -- the subscription that goes was the only one
      · obtain ⟨rfl, rfl⟩ := hpoint
        rw [if_pos ⟨rfl, rfl⟩, tagOf, Option.map_eq_none_iff, List.find?_eq_none]
        intro t ht hist
        obtain ⟨hq', ho'⟩ := (isOf_iff _ _ t).mp hist
        exact hs t ht ⟨hq.trans hq'.symm, ho.trans ho'.symm⟩
      · have hother : ¬ isOf query' identity s = true := fun his' => by
          obtain ⟨hq', ho'⟩ := (isOf_iff _ _ s).mp his'
          exact hpoint ⟨hq.symm.trans hq', ho.symm.trans ho'⟩
        rw [if_neg hpoint, tagOf, tagOf, List.find?_cons_of_neg hother]
    · rw [List.eraseP_cons_of_neg his]
      have ih' := ih hrest
      by_cases hfound : isOf query' identity s = true
      · have hpoint : ¬ (query = query' ∧ observer.identity = identity) := by
          rintro ⟨rfl, rfl⟩
          exact his hfound
        rw [if_neg hpoint, tagOf, tagOf, List.find?_cons_of_pos hfound,
          List.find?_cons_of_pos hfound]
      · rw [tagOf, tagOf, List.find?_cons_of_neg hfound, List.find?_cons_of_neg hfound]
        exact ih'

/-! ## Collecting hits -/

/-- The observer of a group. -/
def groupIdentity (g : Observer × List Hit) : Nat := g.1.identity

/-- What has been collected from hits that were met in an order: one group for each observer, with
its hits in that order. -/
structure Grouped (met : List (Observer × Hit)) (told : List (Observer × List Hit)) : Prop where
  distinct : (told.map groupIdentity).Nodup
  hits : ∀ g ∈ told,
    g.2 = (met.filter fun p => p.1.identity == g.1.identity).map Prod.snd
  complete : ∀ identity, identity ∈ told.map groupIdentity ↔
    ∃ p ∈ met, p.1.identity = identity

/-- A hit opens a group for an observer that was not met before, and goes to the end of its group
otherwise. -/
theorem addHit_cases (observer : Observer) (hit : Hit) (told : List (Observer × List Hit)) :
    (observer.identity ∉ told.map groupIdentity ∧
      addHit observer hit told = told ++ [(observer, [hit])]) ∨
    ∃ l r o hits, o.identity = observer.identity ∧ told = l ++ (o, hits) :: r ∧
      addHit observer hit told = l ++ (o, hits ++ [hit]) :: r := by
  induction told with
  | nil => exact .inl ⟨List.not_mem_nil, rfl⟩
  | cons g rest ih =>
    obtain ⟨o, hits⟩ := g
    by_cases ho : o.identity = observer.identity
    · exact .inr ⟨[], rest, o, hits, ho, rfl, by simp [addHit, ho]⟩
    · rcases ih with ⟨hnew, hadd⟩ | ⟨l, r, o', hits', ho', hrest, hadd⟩
      · refine .inl ⟨?_, by simp [addHit, ho, hadd]⟩
        rw [List.map_cons, List.mem_cons, not_or]
        exact ⟨fun he => ho he.symm, hnew⟩
      · exact .inr ⟨(o, hits) :: l, r, o', hits', ho', by rw [hrest]; rfl,
          by simp [addHit, ho, hadd]⟩

/-- One more hit is none of another observer. -/
theorem filter_concat_of_ne (met : List (Observer × Hit)) {observer : Observer} {identity : Nat}
    (hne : identity ≠ observer.identity) (hit : Hit) :
    (met ++ [(observer, hit)]).filter (fun p => p.1.identity == identity) =
      met.filter fun p => p.1.identity == identity := by
  rw [List.filter_append, List.filter_cons_of_neg (by simpa using fun he => hne he.symm),
    List.filter_nil, List.append_nil]

/-- One more hit is the last one of its observer. -/
theorem filter_concat_self (met : List (Observer × Hit)) {observer : Observer} {identity : Nat}
    (he : identity = observer.identity) (hit : Hit) :
    ((met ++ [(observer, hit)]).filter fun p => p.1.identity == identity).map Prod.snd =
      ((met.filter fun p => p.1.identity == identity).map Prod.snd) ++ [hit] := by
  rw [List.filter_append, List.filter_cons_of_pos (by simp [he]), List.filter_nil, List.map_append]
  rfl

/-- The first hit of an observer makes a group. -/
theorem Grouped.concat_new {met : List (Observer × Hit)} {told : List (Observer × List Hit)}
    (h : Grouped met told) {observer : Observer}
    (hnew : observer.identity ∉ told.map groupIdentity) (hit : Hit) :
    Grouped (met ++ [(observer, hit)]) (told ++ [(observer, [hit])]) where
  distinct := by
    rw [List.map_append]
    refine List.nodup_append.mpr ⟨h.distinct, List.nodup_singleton _, fun i hi j hj he => ?_⟩
    rw [he, List.mem_singleton.mp hj] at hi
    exact hnew hi
  hits := by
    intro g hg
    rcases List.mem_append.mp hg with hg | hg
    · have hne : g.1.identity ≠ observer.identity := fun he =>
        hnew (he ▸ List.mem_map_of_mem hg)
      rw [filter_concat_of_ne met hne]
      exact h.hits g hg
    · -- nothing of this observer was met before
      rw [List.mem_singleton.mp hg, filter_concat_self met rfl]
      have hnil : met.filter (fun p => p.1.identity == observer.identity) = [] := by
        rw [List.filter_eq_nil_iff]
        intro p hp he
        exact hnew ((h.complete _).mpr ⟨p, hp, by simpa using he⟩)
      rw [hnil]
      rfl
  complete := by
    intro identity
    rw [List.map_append, List.mem_append, h.complete]
    simp [groupIdentity, or_and_right, exists_or, eq_comm]

/-- Another hit of an observer goes into its group. -/
theorem Grouped.concat_old {met : List (Observer × Hit)} {l r : List (Observer × List Hit)}
    {o observer : Observer} {hits : List Hit} (h : Grouped met (l ++ (o, hits) :: r))
    (ho : o.identity = observer.identity) (hit : Hit) :
    Grouped (met ++ [(observer, hit)]) (l ++ (o, hits ++ [hit]) :: r) := by
  have hidentity : (l ++ (o, hits ++ [hit]) :: r).map groupIdentity =
      (l ++ (o, hits) :: r).map groupIdentity := by
    rw [List.map_append, List.map_append, List.map_cons, List.map_cons]
    rfl
  have hdistinct := h.distinct
  rw [List.map_append, List.map_cons, List.nodup_append, List.nodup_cons] at hdistinct
  obtain ⟨-, ⟨hr, -⟩, hl⟩ := hdistinct
  -- the other groups are of other observers
  have hkept : ∀ g ∈ l ++ (o, hits) :: r, groupIdentity g ≠ groupIdentity (o, hits) →
      g.2 = ((met ++ [(observer, hit)]).filter
        fun p => p.1.identity == g.1.identity).map Prod.snd := by
    intro g hg hne
    have hother : g.1.identity ≠ observer.identity := fun he => hne (he.trans ho.symm)
    rw [filter_concat_of_ne met hother]
    exact h.hits g hg
  refine { distinct := ?_, hits := fun g hg => ?_, complete := fun identity => ?_ }
  · rw [hidentity]
    exact h.distinct
  · rcases List.mem_append.mp hg with hg | hg
    · refine hkept g (List.mem_append_left _ hg) ?_
      exact hl _ (List.mem_map_of_mem hg) _ List.mem_cons_self
    · rcases List.mem_cons.mp hg with rfl | hg
      · rw [filter_concat_self met ho,
          ← h.hits (o, hits) (List.mem_append_right l List.mem_cons_self)]
      · refine hkept g (List.mem_append_right l (List.mem_cons_of_mem _ hg)) fun he => hr ?_
        rw [← he]
        exact List.mem_map_of_mem hg
  · rw [hidentity, h.complete]
    constructor
    · rintro ⟨p, hp, he⟩
      exact ⟨p, List.mem_append_left _ hp, he⟩
    · rintro ⟨p, hp, he⟩
      rcases List.mem_append.mp hp with hp | hp
      · exact ⟨p, hp, he⟩
      · rw [List.mem_singleton.mp hp] at he
        rw [← h.complete, ← he, ← ho]
        exact List.mem_map_of_mem (List.mem_append_right l List.mem_cons_self)

/-- One more hit keeps the groups right. -/
theorem Grouped.addHit {met : List (Observer × Hit)} {told : List (Observer × List Hit)}
    (h : Grouped met told) (observer : Observer) (hit : Hit) :
    Grouped (met ++ [(observer, hit)]) (addHit observer hit told) := by
  rcases addHit_cases observer hit told with ⟨hnew, hadd⟩ | ⟨l, r, o, hits, ho, rfl, hadd⟩
  · rw [hadd]
    exact h.concat_new hnew hit
  · rw [hadd]
    exact h.concat_old ho hit

/-- The hits in the order in which they are met: query by query. -/
def met (ss : Subscriptions) (queries : List QueryId) : List (Observer × Hit) :=
  queries.flatMap fun query =>
    (ss.ofQuery query).map fun s => (s.observer, ⟨query, s.tag⟩)

/-- Collecting hits one after another, from groups that are right. -/
theorem grouped_foldl (more : List (Observer × Hit)) {seen : List (Observer × Hit)}
    {told : List (Observer × List Hit)} (h : Grouped seen told) :
    Grouped (seen ++ more) (more.foldl (fun told p => addHit p.1 p.2 told) told) := by
  induction more generalizing seen told with
  | nil =>
    rw [List.append_nil]
    exact h
  | cons p rest ih =>
    have hrest := ih (h.addHit p.1 p.2)
    rw [List.append_assoc] at hrest
    exact hrest

theorem grouped_nil : Grouped [] [] where
  distinct := List.nodup_nil
  hits := fun g hg => absurd hg List.not_mem_nil
  complete := fun identity => by simp

/-- The pass over the affected queries collects what is met. -/
theorem grouped_hits (ss : Subscriptions) (queries : List QueryId) :
    Grouped (ss.met queries) (ss.hits queries) := by
  have hfold : ss.hits queries =
      (ss.met queries).foldl (fun told p => addHit p.1 p.2 told) [] := by
    rw [met, List.foldl_flatMap]
    simp only [hits, List.foldl_map]
  rw [hfold]
  exact grouped_foldl (ss.met queries) grouped_nil

/-! ## What one observer is told -/

/-- The affected queries that an observer is subscribed to, each with its tag. -/
def hitsOf (ss : Subscriptions) (queries : List QueryId) (identity : Nat) : List Hit :=
  queries.filterMap fun query => (ss.tagOf query identity).map fun tag => ⟨query, tag⟩

/-- The hits that are met for one observer. -/
theorem met_filter {ss : Subscriptions} (h : ss.Unique) (queries : List QueryId)
    (identity : Nat) :
    ((ss.met queries).filter fun p => p.1.identity == identity).map Prod.snd =
      ss.hitsOf queries identity := by
  rw [met, hitsOf, List.filterMap_eq_flatMap_toList, List.filter_flatMap, List.map_flatMap]
  refine congrArg (fun f => queries.flatMap f) (funext fun query => ?_)
  have hboth : List.filter (fun s : Subscription => s.observer.identity == identity)
      (ss.ofQuery query) = List.filter (isOf query identity) ss := by
    rw [ofQuery, List.filter_filter]
    exact List.filter_congr fun s _ => Bool.and_comm _ _
  rw [List.filter_map, List.map_map, Function.comp_def, Function.comp_def]
  simp only [hboth, filter_isOf h, tagOf]
  cases List.find? (isOf query identity) ss <;> rfl

theorem mem_hitsOf_iff (ss : Subscriptions) (queries : List QueryId) (identity : Nat)
    (hit : Hit) : hit ∈ ss.hitsOf queries identity ↔
      hit.query ∈ queries ∧ ss.tagOf hit.query identity = some hit.tag := by
  rw [hitsOf, List.mem_filterMap]
  constructor
  · rintro ⟨query, hquery, hmap⟩
    obtain ⟨tag, htag, rfl⟩ := Option.map_eq_some_iff.mp hmap
    exact ⟨hquery, htag⟩
  · rintro ⟨hquery, htag⟩
    exact ⟨hit.query, hquery, by rw [htag]; rfl⟩

/-- An observer has hits when it is subscribed to an affected query. -/
theorem hitsOf_ne_nil_iff (ss : Subscriptions) (queries : List QueryId) (identity : Nat) :
    ss.hitsOf queries identity ≠ [] ↔
      ∃ query ∈ queries, (ss.tagOf query identity).isSome = true := by
  constructor
  · intro hne
    obtain ⟨hit, hmem⟩ := List.exists_mem_of_ne_nil _ hne
    obtain ⟨hquery, htag⟩ := (mem_hitsOf_iff ss queries identity hit).mp hmem
    exact ⟨hit.query, hquery, by rw [htag]; rfl⟩
  · rintro ⟨query, hquery, hsome⟩
    obtain ⟨tag, htag⟩ := Option.isSome_iff_exists.mp hsome
    exact List.ne_nil_of_mem ((mem_hitsOf_iff ss queries identity ⟨query, tag⟩).mpr
      ⟨hquery, htag⟩)

/-- The observers that are told are those with hits. -/
theorem mem_hits_iff {ss : Subscriptions} (h : ss.Unique) (queries : List QueryId)
    (identity : Nat) :
    identity ∈ (ss.hits queries).map groupIdentity ↔ ss.hitsOf queries identity ≠ [] := by
  rw [(grouped_hits ss queries).complete, ← met_filter h, ne_eq, List.map_eq_nil_iff,
    List.filter_eq_nil_iff]
  push Not
  exact exists_congr fun p => and_congr_right fun _ => by rw [beq_iff_eq]

/-- **One message for each observer of affected queries.** With all of its hits, and none for any
other observer. -/
theorem messages_invalidations {ss : Subscriptions} (h : ss.Unique) (collection : String)
    (queries : List QueryId) (identity : Nat) :
    (((ss.invalidations collection queries).filter
        fun d => d.observer.identity == identity).map Delivery.invalidation) =
      if ss.hitsOf queries identity = [] then []
        else [⟨collection, ss.hitsOf queries identity⟩] := by
  have hgrouped := grouped_hits ss queries
  have hgroups : ∀ g ∈ ss.hits queries, groupIdentity g = identity →
      g.2 = ss.hitsOf queries identity := by
    intro g hg he
    rw [hgrouped.hits g hg, ← met_filter h queries identity]
    subst he
    rfl
  -- groups have distinct observers, so that one observer has at most one
  rw [invalidations, List.filter_map, List.map_map, Function.comp_def, Function.comp_def]
  show List.map (fun g => Invalidation.mk collection g.2)
    (List.filter (fun g => groupIdentity g == identity) (ss.hits queries)) = _
  rw [filter_eq_toList_find? _ _ (List.Pairwise.imp (fun {a b} hne hboth => hne
    ((beq_iff_eq.mp hboth.1).trans (beq_iff_eq.mp hboth.2).symm))
    (List.pairwise_map.mp hgrouped.distinct))]
  cases hfind : List.find? (fun g => groupIdentity g == identity) (ss.hits queries) with
  | none =>
    have hnil : ss.hitsOf queries identity = [] := by
      by_contra hne
      obtain ⟨g, hg, he⟩ := List.mem_map.mp ((mem_hits_iff h queries identity).mpr hne)
      exact List.find?_eq_none.mp hfind g hg (beq_iff_eq.mpr he)
    rw [if_pos hnil]
    rfl
  | some g =>
    have hg := List.mem_of_find?_eq_some hfind
    have he : groupIdentity g = identity := by
      simpa using List.find?_some hfind
    have hne := (mem_hits_iff h queries identity).mp
      (he ▸ List.mem_map_of_mem hg)
    rw [if_neg hne, ← hgroups g hg he]
    rfl

end DocWatch.Subscriptions

/-
  The routing tables of the simple network lead along shortest paths.

  With positive weights, every router has for every machine a link that is on a shortest path to it
  (`exists_next`), and a link that carries a machine leads strictly nearer to it: to a router that is nearer, or
  out of the network AT that machine (`nearer`).
-/
import NvpSim.Ruby.SimpleNetwork

namespace NvpSim.Ruby

open NvpSim.Lib NvpSim.Lib.ShortestPath List Option

namespace Topology

variable {t : Topology} {i j type num : Nat} {w : Int} {dist : Table}

/-! ## Topologies -/

/-- The length of a path of links. -/
inductive Path (t : Topology) : Nat → Nat → Int → Prop where
  | link {i j : Nat} {w : Int} (h : t.link i j = some w) : Path t i j w
  | trans {i k j : Nat} {a b : Int} (h : Path t i k a) (h' : Path t k j b) : Path t i j (a + b)

/-- The queue out of the network to a machine. -/
def endpoint (t : Topology) (d : Nat × Nat) : Nat := t.nodeNumber d.1 d.2 + t.nodes

/-- All weights are positive, and every router has a path to every machine that is shorter than
    `INFINITE_LATENCY`. -/
structure Connected (t : Topology) : Prop where
  positive : ∀ l ∈ t.addedLinks, 0 < l.2.2
  path : ∀ r < t.numberOfSwitches, ∀ d ∈ t.machines, ∃ c < infiniteLatency, t.Path (r + 2 * t.nodes) (t.endpoint d) c

/-- What the numbers can take: at most 32 machines of a type, and weights whose sums do not overflow. -/
structure Small (t : Topology) : Prop where
  counts : ∀ n ∈ t.counts, n ≤ 32
  weights : ∀ l ∈ t.addedLinks, l.2.2 < 2 ^ 30

instance : Decidable t.Small :=
  decidable_of_iff ((∀ n ∈ t.counts, n ≤ 32) ∧ ∀ l ∈ t.addedLinks, l.2.2 < 2 ^ 30)
    ⟨fun h => ⟨h.1, h.2⟩, fun h => ⟨h.1, h.2⟩⟩

/-- A link of the topology was added. -/
theorem mem_of_link (h : t.link i j = some w) : (i, j, w) ∈ t.addedLinks := by
  obtain ⟨l, hl, rfl⟩ := map_eq_some_iff.mp h
  have hmem := mem_reverse.mp (mem_of_find?_eq_some hl)
  have hsome := find?_some hl
  have heq : l.1 = i ∧ l.2.1 = j := of_decide_eq_true hsome
  rw [← heq.1, ← heq.2]
  exact hmem

/-- **Links** go from a machine to a switch, from a switch to a machine, or between switches. -/
theorem addedLinks_ends (h : (i, j, w) ∈ t.addedLinks) :
    (i < t.nodes ∧ 2 * t.nodes ≤ j) ∨ (2 * t.nodes ≤ i ∧ t.nodes ≤ j ∧ j < 2 * t.nodes) ∨
      (2 * t.nodes ≤ i ∧ 2 * t.nodes ≤ j ∧ j < t.numberOfSwitches + 2 * t.nodes) := by
  rcases mem_append.mp h with h | h
  · obtain ⟨l, hl, hmem⟩ := mem_flatMap.mp h
    have hexists : l.extNode < t.nodes ∧ l.intNode < t.numberOfSwitches := t.ext_exists l hl
    rcases mem_cons.mp hmem with heq | hmem
    · cases heq
      omega
    · cases mem_singleton.mp hmem
      omega
  · obtain ⟨l, hl, hmem⟩ := mem_flatMap.mp h
    have hexists := t.int_exists l hl
    rcases mem_cons.mp hmem with heq | hmem
    · cases heq
      omega
    · cases mem_singleton.mp hmem
      omega

/-- Both ends of a link are nodes of the graph. -/
theorem lt_numSwitches (h : (i, j, w) ∈ t.addedLinks) : i < t.numSwitches ∧ j < t.numSwitches := by
  have hinit : ∀ (ls : List (Nat × Nat × Int)) (m : Nat), m ≤ ls.foldl (fun m l => max (max m l.1) l.2.1) m := by
    intro ls
    induction ls with
    | nil => intro m; exact Nat.le_refl m
    | cons l ls ih =>
      intro m
      exact le_trans (by omega) (ih (max (max m l.1) l.2.1))
  have hfold : ∀ (ls : List (Nat × Nat × Int)) (m : Nat), (i, j, w) ∈ ls →
      i ≤ ls.foldl (fun m l => max (max m l.1) l.2.1) m ∧ j ≤ ls.foldl (fun m l => max (max m l.1) l.2.1) m := by
    intro ls
    induction ls with
    | nil => intro m hmem; cases hmem
    | cons l ls ih =>
      intro m hmem
      rcases mem_cons.mp hmem with rfl | hmem
      · have hle := hinit ls (max (max m i) j)
        rw [foldl_cons]
        dsimp only
        omega
      · exact ih _ hmem
  have := hfold t.addedLinks 0 h
  unfold numSwitches
  omega

/-! ## Weights -/

theorem weights_link (h : t.link i j = some w) : t.weights i j = w := by
  unfold weights
  rw [h]

/-- A finite weight between two nodes is that of a link. -/
theorem link_of_weights_lt (hne : i ≠ j) (h : t.weights i j < infiniteLatency) :
    t.link i j = some (t.weights i j) := by
  unfold weights at h ⊢
  cases hl : t.link i j with
  | some w => rfl
  | none =>
    rw [hl] at h
    rw [if_neg hne] at h
    exact absurd h (lt_irrefl _)

/-- The weights are small enough to be added twice without overflow. -/
theorem weights_bounds (hpos : ∀ l ∈ t.addedLinks, 0 < l.2.2) (hsmall : t.Small) (i j : Nat) :
    0 ≤ t.weights i j ∧ t.weights i j ≤ 2 ^ 30 - 1 := by
  unfold weights
  cases hl : t.link i j with
  | some w =>
    have h0 : 0 < w := hpos _ (mem_of_link hl)
    have h1 : w < 2 ^ 30 := hsmall.weights _ (mem_of_link hl)
    dsimp only
    omega
  | none =>
    dsimp only
    split
    · omega
    · unfold infiniteLatency
      omega

/-- No link goes out from an endpoint. -/
theorem link_from_endpoint (hlo : t.nodes ≤ i) (hhi : i < 2 * t.nodes) (j : Nat) : t.link i j = none := by
  cases hl : t.link i j with
  | none => rfl
  | some w =>
    have := addedLinks_ends (mem_of_link hl)
    omega

/-- Below `2 ^ 30` the sum of two `int`s does not overflow. -/
theorem plusInt_eq {a b : Int} (ha : 0 ≤ a) (ha' : a ≤ 2 ^ 30 - 1) (hb : 0 ≤ b) (hb' : b ≤ 2 ^ 30 - 1) :
    plusInt a b = a + b := by
  unfold plusInt
  rw [Int.bmod_def]
  omega

/-! ## Machines -/

theorem mem_machines : (type, num) ∈ t.machines ↔ ∃ n, t.counts[type]? = some n ∧ num < n := by
  unfold machines
  rw [mem_flatMap]
  constructor
  · rintro ⟨type', htype, hmem⟩
    obtain ⟨num', hnum, heq⟩ := List.mem_map.mp hmem
    cases heq
    have hlt := mem_range.mp htype
    refine ⟨t.counts[type], getElem?_eq_getElem hlt, ?_⟩
    have hnum := mem_range.mp hnum
    rw [getD_eq_getElem?_getD, getElem?_eq_getElem hlt] at hnum
    exact hnum
  · rintro ⟨n, htype, hnum⟩
    obtain ⟨hlt, -⟩ := List.getElem?_eq_some_iff.mp htype
    refine ⟨type, mem_range.mpr hlt, List.mem_map.mpr ⟨num, ?_, rfl⟩⟩
    rw [mem_range, getD_eq_getElem?_getD, htype]
    exact hnum

theorem sum_take_succ {counts : List Nat} {n : Nat} (h : counts[type]? = some n) :
    (counts.take (type + 1)).sum = (counts.take type).sum + n := by
  obtain ⟨hlt, rfl⟩ := List.getElem?_eq_some_iff.mp h
  rw [take_succ_eq_append_getElem hlt, sum_append, sum_singleton]

theorem sum_take_mono (counts : List Nat) {a b : Nat} (h : a ≤ b) : (counts.take a).sum ≤ (counts.take b).sum := by
  obtain ⟨k, rfl⟩ := Nat.exists_eq_add_of_le h
  rw [take_add, sum_append]
  omega

/-- The number of a machine is one of a node. -/
theorem nodeNumber_lt (h : (type, num) ∈ t.machines) : t.nodeNumber type num < t.nodes := by
  obtain ⟨n, htype, hnum⟩ := mem_machines.mp h
  have hsucc := sum_take_succ htype
  have hle := sum_take_mono t.counts (Nat.le_max_left (type + 1) t.counts.length)
  rw [take_of_length_le (Nat.le_max_right _ _)] at hle
  unfold nodeNumber nodes
  omega

/-- No two machines have the same number. -/
theorem nodeNumber_inj {type' num' : Nat} (h : (type, num) ∈ t.machines)
    (h' : (type', num') ∈ t.machines) (heq : t.nodeNumber type num = t.nodeNumber type' num') :
    (type, num) = (type', num') := by
  obtain ⟨n, htype, hnum⟩ := mem_machines.mp h
  obtain ⟨n', htype', hnum'⟩ := mem_machines.mp h'
  have hsucc := sum_take_succ htype
  have hsucc' := sum_take_succ htype'
  unfold nodeNumber at heq
  rcases Nat.lt_trichotomy type type' with hlt | rfl | hgt
  · have := sum_take_mono t.counts (Nat.succ_le_of_lt hlt)
    simp only [Nat.succ_eq_add_one] at this
    omega
  · rw [Nat.add_left_cancel heq]
  · have := sum_take_mono t.counts (Nat.succ_le_of_lt hgt)
    simp only [Nat.succ_eq_add_one] at this
    omega

/-! ## Distances -/

/-- The distances that the passes end with. -/
structure Distances (t : Topology) (dist : Table) : Prop where
  sound : Sound t.numSwitches t.weights dist
  closed : Closed t.numSwitches dist

/-- **The shortest paths are computed.** -/
theorem shortestPath_spec (hpos : ∀ l ∈ t.addedLinks, 0 < l.2.2) (hsmall : t.Small) :
    ∃ dist, t.shortestPath = some dist ∧ t.Distances dist := by
  have hbounds := weights_bounds hpos hsmall
  obtain ⟨dist, hdist, hsound, hclosed⟩ := @Sound.extend t.numSwitches plusInt t.weights (2 ^ 30 - 1)
    (fun a b ha ha' hb hb' => plusInt_eq ha ha' hb hb') (fun i j _ _ => (hbounds i j).2) _ _
    (sound_weights fun {i j} _ _ => (hbounds i j).1) (Nat.lt_succ_self _)
  exact ⟨dist, hdist, hsound, hclosed⟩

/-- A path of links is a walk of the same length. -/
theorem walk_of_path {c : Int} (h : t.Path i j c) : Walk t.numSwitches t.weights i j c := by
  induction h with
  | link h =>
    obtain ⟨hi, hj⟩ := lt_numSwitches (mem_of_link h)
    rw [← weights_link h]
    exact .edge hi hj
  | trans _ _ ih ih' => exact .trans ih ih'

/-- What a router needs to know about a machine. -/
structure Reaches (t : Topology) (dist : Table) (i : Nat) (d : Nat × Nat) : Prop where
  lt : i < t.numSwitches
  lt' : t.endpoint d < t.numSwitches
  near : dist i (t.endpoint d) < infiniteLatency

variable {d : Nat × Nat}

/-- From every switch every machine is reached. -/
theorem Connected.reaches (h : t.Connected) (hdist : t.Distances dist) {r : Nat}
    (hr : r < t.numberOfSwitches) (hd : d ∈ t.machines) : t.Reaches dist (r + 2 * t.nodes) d := by
  obtain ⟨c, hc, hpath⟩ := h.path r hr d hd
  have hwalk := walk_of_path hpath
  exact ⟨hwalk.lt.1, hwalk.lt.2, lt_of_le_of_lt (hdist.sound.le_walk hdist.closed hwalk) hc⟩

theorem endpoint_bounds (hd : d ∈ t.machines) : t.nodes ≤ t.endpoint d ∧ t.endpoint d < 2 * t.nodes := by
  have := nodeNumber_lt hd
  unfold endpoint
  omega

theorem weights_endpoint (hd : d ∈ t.machines) : t.weights (t.endpoint d) (t.endpoint d) = 0 := by
  obtain ⟨hlo, hhi⟩ := endpoint_bounds hd
  unfold weights
  rw [link_from_endpoint hlo hhi]
  exact if_pos rfl

/-- **A link is on a shortest path** exactly if its weight and the rest of the way make up the distance. -/
theorem linkIsShortest_iff (hpos : ∀ l ∈ t.addedLinks, 0 < l.2.2) (hsmall : t.Small)
    (hdist : t.Distances dist) (hj : j < t.numSwitches) (hd : t.endpoint d < t.numSwitches) :
    t.linkIsShortestPathToNode dist i j (t.endpoint d) = true ↔
      t.weights i j + dist j (t.endpoint d) = dist i (t.endpoint d) := by
  have hw := weights_bounds hpos hsmall i j
  have hw' := weights_bounds hpos hsmall j (t.endpoint d)
  have hn := hdist.sound.nonneg hj hd
  have hle := hdist.sound.le_weight hj hd
  unfold linkIsShortestPathToNode
  rw [beq_iff_eq, plusInt_eq hw.1 hw.2 hn (hle.trans hw'.2)]

/-- From one endpoint no other is reached. -/
theorem far_from_endpoint (hdist : t.Distances dist) (hd : d ∈ t.machines)
    (hd' : t.endpoint d < t.numSwitches) (hlo : t.nodes ≤ j) (hhi : j < 2 * t.nodes)
    (hj : j < t.numSwitches) (hne : j ≠ t.endpoint d) : infiniteLatency ≤ dist j (t.endpoint d) := by
  obtain ⟨x, hx, hxn, hstep⟩ := hdist.sound.first_step hdist.closed hj hd' hne (weights_endpoint hd)
  have hw : t.weights j x = infiniteLatency := by
    unfold weights
    rw [link_from_endpoint hlo hhi]
    exact if_neg (Ne.symm hx)
  have := hdist.sound.nonneg hxn hd'
  omega

section

variable (hpos : ∀ l ∈ t.addedLinks, 0 < l.2.2) (hdist : t.Distances dist) (hd : d ∈ t.machines)

include hpos hdist hd

/-- **A link that carries a machine leads nearer to it**, and out of the network only at the machine. -/
theorem nearer (hreach : t.Reaches dist i d) (hj : j < t.numSwitches) (hlink : t.link i j = some w)
    (hcarry : t.weights i j + dist j (t.endpoint d) = dist i (t.endpoint d)) :
    dist j (t.endpoint d) < dist i (t.endpoint d) ∧ (j < 2 * t.nodes → j = t.endpoint d) := by
  have hw : 0 < t.weights i j := by
    rw [weights_link hlink]
    exact hpos _ (mem_of_link hlink)
  refine ⟨by omega, ?_⟩
  intro hhi
  by_contra hne
  have hends := addedLinks_ends (mem_of_link hlink)
  have hfar := far_from_endpoint hdist hd hreach.lt' (by omega) hhi hj hne
  have := hreach.near
  omega

/-- **Every machine is carried by some link.** -/
theorem exists_next (hreach : t.Reaches dist i d) (hi : 2 * t.nodes ≤ i) :
    ∃ j w, (i, j) ∈ t.madeLinks ∧ t.link i j = some w ∧
      t.weights i j + dist j (t.endpoint d) = dist i (t.endpoint d) := by
  have hne : i ≠ t.endpoint d := by
    have := endpoint_bounds hd
    omega
  obtain ⟨x, hx, hxn, hstep⟩ := hdist.sound.first_step hdist.closed hreach.lt hreach.lt' hne (weights_endpoint hd)
  have hlt : t.weights i x < infiniteLatency := by
    have := hreach.near
    have := hdist.sound.nonneg hxn hreach.lt'
    omega
  have hlink := link_of_weights_lt (Ne.symm hx) hlt
  refine ⟨x, _, ?_, hlink, hstep⟩
  unfold madeLinks
  rw [mem_filter]
  refine ⟨mem_pairs.mpr ⟨hreach.lt, hxn⟩, decide_eq_true ⟨?_, ne_of_lt hlt⟩⟩
  exact hpos _ (mem_of_link hlink)

end

/-! ## Routing tables -/

/-- A loop that adds the machines with a property. -/
theorem foldlM_add {counts : List Nat} (hsmall : ∀ n ∈ counts, n ≤ 32) (cond : Nat × Nat → Bool) :
    ∀ {ms : List (Nat × Nat)} {nd : NetDest} {D : Nat → Finset Nat}, NetRep counts nd D →
      (∀ m ∈ ms, ∃ n, counts[m.1]? = some n ∧ m.2 < n) → ∃ nd' E, ms.foldlM (fun (result : NetDest) m =>
          if cond m then result.add m.1 m.2 else some result) nd = some nd' ∧ NetRep counts nd' E ∧
        ∀ type num, num ∈ E type ↔ num ∈ D type ∨ ((type, num) ∈ ms ∧ cond (type, num) = true) := by
  intro ms
  induction ms with
  | nil =>
    intro nd D h _
    refine ⟨nd, D, rfl, h, ?_⟩
    intro type num
    simp
  | cons m ms ih =>
    intro nd D h hms
    have hrest : ∀ m ∈ ms, ∃ n, counts[m.1]? = some n ∧ m.2 < n :=
      (forall_mem_cons.mp hms).2
    -- one machine: it is added if the condition holds of it
    obtain ⟨u, F, hstep, hrep, hF⟩ : ∃ u F, (if cond m then nd.add m.1 m.2 else some nd) = some u ∧
        NetRep counts u F ∧ ∀ type num, num ∈ F type ↔ num ∈ D type ∨ ((type, num) = m ∧ cond m = true) := by
      by_cases hcond : cond m = true
      · obtain ⟨n, htype, hnum⟩ := hms m (mem_cons_self ..)
        obtain ⟨u, hu, hrep⟩ := h.add hsmall htype hnum
        refine ⟨u, _, by rw [if_pos hcond, hu], hrep, fun type num => ?_⟩
        by_cases htype' : type = m.1
        · subst htype'
          rw [Function.update_self, Finset.mem_insert, or_comm]
          exact or_congr_right ⟨fun heq => ⟨by rw [heq], hcond⟩, fun h => congrArg Prod.snd h.1⟩
        · rw [Function.update_of_ne htype']
          exact ⟨Or.inl, fun h => h.resolve_right fun h => htype' (congrArg Prod.fst h.1)⟩
      · exact ⟨nd, D, if_neg hcond, h, fun type num => ⟨Or.inl, fun h => h.resolve_right fun h => hcond h.2⟩⟩
    obtain ⟨nd', E, hfold, hrep', hmem⟩ := ih hrep hrest
    refine ⟨nd', E, ?_, hrep', fun type num => ?_⟩
    · rw [foldlM_cons, hstep]
      exact hfold
    · rw [hmem, hF, mem_cons]
      constructor
      · rintro ((h | ⟨h, hc⟩) | ⟨h, hc⟩)
        · exact Or.inl h
        · exact Or.inr ⟨Or.inl h, h ▸ hc⟩
        · exact Or.inr ⟨Or.inr h, hc⟩
      · rintro (h | ⟨h | h, hc⟩)
        · exact Or.inl (Or.inl h)
        · exact Or.inl (Or.inr ⟨h, h ▸ hc⟩)
        · exact Or.inr ⟨h, hc⟩

/-- **The entry of a link** has the machines to which it is on a shortest path. -/
theorem shortestPathToNode_spec (hsmall : t.Small) (dist : Table) (i j : Nat) :
    ∃ nd D, t.shortestPathToNode dist i j = some nd ∧ NetRep t.counts nd D ∧
      ∀ type num, num ∈ D type ↔ (type, num) ∈ t.machines ∧
        t.linkIsShortestPathToNode dist i j (t.endpoint (type, num)) = true := by
  obtain ⟨nd, D, hfold, hrep, hmem⟩ := foldlM_add hsmall.counts
    (fun m => t.linkIsShortestPathToNode dist i j (t.endpoint m)) (netRep_new t.counts) fun m hm => mem_machines.mp hm
  refine ⟨nd, D, hfold, hrep, ?_⟩
  intro type num
  rw [hmem]
  simp

/-- Every pair with a link gets one. -/
theorem makeLink_spec (h : (i, j) ∈ t.madeLinks) (entry : NetDest) :
    t.makeLink i j entry = some (i, j, entry) ∧ ∃ w, t.link i j = some w := by
  obtain ⟨-, hcond⟩ := mem_filter.mp h
  obtain ⟨hpos, hne⟩ := of_decide_eq_true hcond
  have hlink : ∃ w, t.link i j = some w := by
    unfold weights at hpos hne
    cases hl : t.link i j with
    | some w => exact ⟨w, rfl⟩
    | none =>
      rw [hl] at hpos hne
      dsimp only at hpos hne
      split at hpos
      · exact absurd hpos (lt_irrefl _)
      next hij =>
        rw [if_neg hij] at hne
        exact absurd rfl hne
  obtain ⟨w, hw⟩ := hlink
  have hends := addedLinks_ends (mem_of_link hw)
  refine ⟨?_, w, hw⟩
  unfold makeLink
  rcases hends with h | h | h
  · rw [if_pos (by omega), if_pos h.1]
  · rw [if_pos (by omega), if_neg (by omega), if_pos h.2.2, if_pos h.2.1]
  · rw [if_pos (by omega), if_neg (by omega), if_neg (by omega), if_pos h.1]

/-- A loop that makes one thing for each element. -/
theorem mapM_spec {α β : Type} {f : α → Option β} {R : α → β → Prop} {l : List α}
    (h : ∀ a ∈ l, ∃ b, f a = some b ∧ R a b) :
    ∃ bs, l.mapM f = some bs ∧ (∀ b ∈ bs, ∃ a ∈ l, R a b) ∧ ∀ a ∈ l, ∃ b ∈ bs, R a b := by
  induction l with
  | nil => exact ⟨[], rfl, by simp, by simp⟩
  | cons a l ih =>
    obtain ⟨b, hb, hR⟩ := h a (mem_cons_self ..)
    obtain ⟨bs, hbs, hfrom, hto⟩ := ih (forall_mem_cons.mp h).2
    refine ⟨b :: bs, ?_, ?_, ?_⟩
    · rw [mapM_cons, hb, hbs]
      rfl
    · intro b' hb'
      rcases mem_cons.mp hb' with rfl | hb'
      · exact ⟨a, mem_cons_self .., hR⟩
      · obtain ⟨a', ha', hR'⟩ := hfrom b' hb'
        exact ⟨a', mem_cons_of_mem _ ha', hR'⟩
    · intro a' ha'
      rcases mem_cons.mp ha' with rfl | ha'
      · exact ⟨b, mem_cons_self .., hR⟩
      · obtain ⟨b', hb', hR'⟩ := hto a' ha'
        exact ⟨b', mem_cons_of_mem _ hb', hR'⟩

/-- What a port of a switch is for: a link of the topology, with the machines that it carries. -/
structure GoodPort (t : Topology) (dist : Table) (i : Nat) (port : Nat × NetDest) : Prop where
  lt : port.1 < t.numSwitches
  link : ∃ w, t.link i port.1 = some w
  entry : ∃ D, NetRep t.counts port.2 D ∧ ∀ type num, num ∈ D type ↔ (type, num) ∈ t.machines ∧
      t.linkIsShortestPathToNode dist i port.1 (t.endpoint (type, num)) = true

/-- **The links are made**: a port for each link, with the machines that it carries. -/
theorem createLinks_spec (hpos : ∀ l ∈ t.addedLinks, 0 < l.2.2) (hsmall : t.Small) :
    ∃ dist links, t.shortestPath = some dist ∧ t.Distances dist ∧ t.createLinks = some links ∧
      (∀ i, ∀ port ∈ outPorts links i, t.GoodPort dist i port) ∧
      ∀ i j, (i, j) ∈ t.madeLinks → ∃ nd, (j, nd) ∈ outPorts links i := by
  obtain ⟨dist, hpath, hdist⟩ := shortestPath_spec hpos hsmall
  have hmake : ∀ p ∈ t.madeLinks, ∃ l : Nat × Nat × NetDest,
      ((t.shortestPathToNode dist p.1 p.2).bind fun entry => t.makeLink p.1 p.2 entry) = some l ∧
      (l.1 = p.1 ∧ l.2.1 = p.2 ∧ t.GoodPort dist p.1 l.2) := by
    rintro ⟨i, j⟩ hp
    obtain ⟨nd, D, hnd, hrep, hmem⟩ := shortestPathToNode_spec hsmall dist i j
    obtain ⟨hmade, w, hlink⟩ := makeLink_spec hp nd
    refine ⟨(i, j, nd), ?_, rfl, rfl, ?_, ⟨w, hlink⟩, D, hrep, hmem⟩
    · rw [hnd, bind_some, hmade]
    · exact (lt_numSwitches (mem_of_link hlink)).2
  obtain ⟨links, hlinks, hfrom, hto⟩ := mapM_spec hmake
  refine ⟨dist, links, hpath, hdist, ?_, ?_, ?_⟩
  · unfold createLinks
    rw [hpath, bind_some, hlinks]
  · intro i port hport
    obtain ⟨l, hl, rfl⟩ := List.mem_map.mp hport
    obtain ⟨hl, hsrc⟩ := mem_filter.mp hl
    obtain ⟨p, -, hp, -, hgood⟩ := hfrom l hl
    rw [← of_decide_eq_true hsrc, hp]
    exact hgood
  · intro i j hij
    obtain ⟨l, hl, hsrc, hdest, -⟩ := hto (i, j) hij
    refine ⟨l.2.2, List.mem_map.mpr ⟨l, ?_, Prod.ext hdest rfl⟩⟩
    exact mem_filter.mpr ⟨hl, decide_eq_true hsrc⟩

end Topology

end NvpSim.Ruby

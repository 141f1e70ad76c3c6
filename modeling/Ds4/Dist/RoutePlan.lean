import Ds4.Dist.Route
import Ds4.Dist.RouteBlob

/-!
# Route plans

`dist_coordinator_build_route_plan` plans a route over the registered workers and writes its blob. It
succeeds if and only if there is a route, and what it writes is accepted and read back.
-/

namespace Ds4.Dist

open Ds4.Lib

/-- `ds4_dist_route_plan`. -/
structure RoutePlan where
  entries : List RouteEntry
  blob : Option Bytes
  generation : UInt64

/-- Why there is no plan. -/
inductive Fault
  | refused (text : String)
  | overrun

variable {nLayers : UInt32}

/-- The entry of a worker in a plan. -/
def planEntry (w : Worker nLayers) : RouteEntry :=
  ⟨w.peerHost.name, w.listenPort, w.layerStart, w.layerEnd, if w.hasOutput then routeOutputLogits else 0⟩

/-- The entries and the blob of a path. -/
def planPath (path : List (Worker nLayers)) (generation : UInt64) : Except Fault RoutePlan :=
  let entries := path.map planEntry
  match appendBlobs none entries with
  | .error text => .error (.refused text)
  | .ok blob =>
    if entries.length = 0 then .ok ⟨entries, blob, generation⟩
    else
      match appendReturnUpstream blob with
      | .error text => .error (.refused text)
      | .ok blob => .ok ⟨entries, blob, generation⟩

/-- `dist_coordinator_build_route_plan`. -/
def buildRoutePlan (c : Coordinator) (q : Qsort (@routeCmp c.nLayers)) (r : Registry c.nLayers) :
    Except Fault RoutePlan :=
  let workers := q.sort r.workers
  let last := c.nLayers - 1
  if c.localStart ≠ 0 then .error (.refused "coordinator route does not start at layer 0")
  else if c.localEnd = last ∧ (c.localHasOutput || c.localCanOutputHead) = true then
    .ok ⟨[], none, r.generation⟩
  else
    match searchWorkers c.localCanOutputHead workers last (c.localEnd + 1) workers false []
      (c.localEnd + 1) with
    | .overrun => .error .overrun
    | .missing layer =>
      .error (.refused ("distributed route incomplete: missing layer " ++ toString layer.toNat))
    | .found path => planPath path r.generation

/-! ## Routes -/

/-- Ranges that follow each other from `next` up to `stop`. -/
def Tiles (next stop : Nat) : List (Worker nLayers) → Prop
  | [] => next = stop
  | w :: ws => w.layerStart.toNat = next ∧ Tiles (w.layerEnd.toNat + 1) stop ws

/-- A route behind the local slice: registered workers that own the other layers one after another. Each
that returns its hidden state can do so, and the owner of the last layer has the output head or leaves it
to the coordinator. -/
structure RouteChain (c : Coordinator) (registered ws : List (Worker c.nLayers)) : Prop where
  registered : ∀ w ∈ ws, w ∈ registered
  tiles : Tiles (c.localEnd.toNat + 1) c.nLayers.toNat ws
  hidden : ∀ w ∈ ws, (w.layerEnd.toNat + 1 < c.nLayers.toNat ∨ w.hasOutput = false) → w.hasHidden = true
  output : (match ws.getLast? with
    | some w => w.hasOutput
    | none => c.localHasOutput) = true ∨ c.localCanOutputHead = true

theorem routeCmp_nonpos {a b : Worker nLayers} (h : routeCmp a b ≤ 0) : a.layerStart ≤ b.layerStart := by
  unfold routeCmp at h
  split_ifs at h with hlt hgt
  all_goals first
    | exact UInt32.le_of_lt hlt
    | exact UInt32.not_lt.mp hgt
    | omega

theorem candidateOk_iff {canOutputHead : Bool} {last : UInt32} {w : Worker nLayers} :
    candidateOk canOutputHead last w = true ↔
      ((w.layerEnd < last ∨ w.hasOutput = false) → w.hasHidden = true) ∧
        (last ≤ w.layerEnd → w.hasOutput = true ∨ canOutputHead = true) := by
  unfold candidateOk
  cases w.hasHidden <;> cases w.hasOutput <;> cases canOutputHead <;> simp

section Last

variable {last : UInt32} {w : Worker nLayers}

theorem end_lt_last (hlast : last.toNat + 1 = nLayers.toNat) :
    w.layerEnd < last ↔ w.layerEnd.toNat + 1 < nLayers.toNat := by
  rw [UInt32.lt_iff_toNat_lt, ← hlast]
  omega

theorem last_le_end (hlast : last.toNat + 1 = nLayers.toNat) :
    last ≤ w.layerEnd ↔ w.layerEnd.toNat + 1 = nLayers.toNat := by
  have hlt := w.end_lt
  rw [UInt32.lt_iff_toNat_lt] at hlt
  rw [UInt32.le_iff_toNat_le, ← hlast]
  omega

variable {canOutputHead : Bool} {workers : List (Worker nLayers)}

theorem Goes.chain (hlast : last.toNat + 1 = nLayers.toNat) {next : UInt32} {ws : List (Worker nLayers)}
    (h : Goes canOutputHead workers last next ws) : (∀ w ∈ ws, w ∈ workers) ∧
      Tiles next.toNat nLayers.toNat ws ∧
      (∀ w ∈ ws, (w.layerEnd.toNat + 1 < nLayers.toNat ∨ w.hasOutput = false) → w.hasHidden = true) ∧
      ∃ w, ws.getLast? = some w ∧ (w.hasOutput = true ∨ canOutputHead = true) := by
  induction h with
  | @final w hmem hok hend =>
    rw [candidateOk_iff, end_lt_last hlast] at hok
    refine ⟨?_, ⟨rfl, (last_le_end hlast).mp hend⟩, ?_, w, rfl, hok.2 hend⟩
    · intro x hx
      rwa [List.mem_singleton.mp hx]
    · intro x hx
      rw [List.mem_singleton.mp hx]
      exact hok.1
  | @hop w ws hmem hok hend hnext ih =>
    obtain ⟨hin, htiles, hhidden, x, hx, hout⟩ := ih
    rw [candidateOk_iff, end_lt_last hlast] at hok
    rw [toNat_succ hend] at htiles
    refine ⟨?_, ⟨rfl, htiles⟩, ?_, x, ?_, hout⟩
    · intro y hy
      rcases List.mem_cons.mp hy with rfl | hy
      · exact hmem
      · exact hin y hy
    · intro y hy
      rcases List.mem_cons.mp hy with rfl | hy
      · exact hok.1
      · exact hhidden y hy
    · rw [List.getLast?_cons, hx]
      rfl

theorem goes_of_chain (hlast : last.toNat + 1 = nLayers.toNat) {next : UInt32} {w : Worker nLayers}
    {ws : List (Worker nLayers)} (hin : ∀ x ∈ w :: ws, x ∈ workers)
    (htiles : Tiles next.toNat nLayers.toNat (w :: ws))
    (hhidden : ∀ x ∈ w :: ws,
      (x.layerEnd.toNat + 1 < nLayers.toNat ∨ x.hasOutput = false) → x.hasHidden = true)
    (hout : ∀ x, (w :: ws).getLast? = some x → x.hasOutput = true ∨ canOutputHead = true) :
    Goes canOutputHead workers last next (w :: ws) := by
  induction ws generalizing w next with
  | nil =>
    obtain ⟨hstart, hend⟩ := htiles
    obtain rfl := UInt32.toNat_inj.mp hstart
    have hend' : w.layerEnd.toNat + 1 = nLayers.toNat := hend
    refine .final (hin w (by simp)) ?_ ((last_le_end hlast).mpr hend')
    rw [candidateOk_iff, end_lt_last hlast]
    exact ⟨hhidden w (by simp), fun _ => hout w rfl⟩
  | cons x ws ih =>
    obtain ⟨hstart, hx, hrest⟩ := htiles
    obtain rfl := UInt32.toNat_inj.mp hstart
    have hxlt := UInt32.lt_iff_toNat_lt.mp x.end_lt
    have hxle := UInt32.le_iff_toNat_le.mp x.start_le
    have hend : w.layerEnd < last := (end_lt_last hlast).mpr (by omega)
    refine .hop (hin w (by simp)) ?_ hend ?_
    · rw [candidateOk_iff]
      refine ⟨fun h => hhidden w (by simp) (h.imp_left (end_lt_last hlast).mp), fun h => ?_⟩
      exact absurd hend (UInt32.not_lt.mpr h)
    · have hin' : ∀ y ∈ x :: ws, y ∈ workers := fun y hy => hin y (List.mem_cons_of_mem _ hy)
      have hhidden' : ∀ y ∈ x :: ws,
          (y.layerEnd.toNat + 1 < nLayers.toNat ∨ y.hasOutput = false) → y.hasHidden = true :=
        fun y hy => hhidden y (List.mem_cons_of_mem _ hy)
      have hout' : ∀ y, (x :: ws).getLast? = some y → y.hasOutput = true ∨ canOutputHead = true := by
        intro y hy
        exact hout y (by rw [List.getLast?_cons, hy]; rfl)
      refine ih hin' ?_ hhidden' hout'
      rw [toNat_succ hend]
      exact ⟨hx, hrest⟩

end Last

/-! ## Tiles -/

section Tiles

variable {next stop : Nat} {ws : List (Worker nLayers)}

theorem Tiles.next_le (h : Tiles next stop ws) : ∀ w ∈ ws, next ≤ w.layerStart.toNat := by
  induction ws generalizing next with
  | nil => nofun
  | cons w ws ih =>
    obtain ⟨hstart, hrest⟩ := h
    have hle := UInt32.le_iff_toNat_le.mp w.start_le
    intro x hx
    rcases List.mem_cons.mp hx with rfl | hx
    · exact hstart.ge
    · have hnext := ih hrest x hx
      omega

theorem Tiles.nodup (h : Tiles next stop ws) : ws.Nodup := by
  induction ws generalizing next with
  | nil => exact List.nodup_nil
  | cons w ws ih =>
    obtain ⟨hstart, hrest⟩ := h
    have hle := UInt32.le_iff_toNat_le.mp w.start_le
    refine List.nodup_cons.mpr ⟨fun hmem => ?_, ih hrest⟩
    have hnext := hrest.next_le w hmem
    omega

theorem Tiles.length_le (h : Tiles next stop ws) : next + ws.length ≤ stop := by
  induction ws generalizing next with
  | nil => exact h.le
  | cons w ws ih =>
    obtain ⟨hstart, hrest⟩ := h
    have hle := UInt32.le_iff_toNat_le.mp w.start_le
    have hlength := ih hrest
    rw [List.length_cons]
    omega

theorem planEntry_ok (w : Worker nLayers) : (planEntry w).Ok nLayers where
  pos := w.peerHost.pos
  lt := w.peerHost.lt
  noNul := w.peerHost.noNul
  port_ne := w.port_ne
  port_le := w.port_le
  start_le := w.start_le
  end_lt := w.end_lt
  flags := by
    cases hout : w.hasOutput with
    | false => exact Or.inl (by simp [planEntry, hout])
    | true => exact Or.inr ⟨by simp [planEntry, hout], w.output_end hout⟩

theorem Tiles.contiguous {prevEnd : Option UInt32} (h : Tiles next stop ws)
    (hprev : ∀ p ∈ prevEnd, p < nLayers ∧ p.toNat + 1 = next) : Contiguous prevEnd (ws.map planEntry) := by
  induction ws generalizing next prevEnd with
  | nil => exact trivial
  | cons w ws ih =>
    obtain ⟨hstart, hrest⟩ := h
    refine ⟨fun p hp => ?_, ih hrest fun p hp => ?_⟩
    · obtain ⟨hlt, hnext⟩ := hprev p hp
      apply UInt32.toNat_inj.mp
      rw [toNat_succ hlt, hnext]
      exact hstart
    · obtain rfl := Option.some.inj hp
      exact ⟨w.end_lt, rfl⟩

theorem planEntries_ok (ws : List (Worker nLayers)) : ∀ e ∈ ws.map planEntry, e.Ok nLayers := by
  intro e he
  obtain ⟨w, -, rfl⟩ := List.mem_map.mp he
  exact planEntry_ok w

/-- **The plan of a path.** -/
theorem planPath_eq (h : Tiles next stop ws) (hstop : stop ≤ maxLayer) (hne : ws ≠ [])
    (generation : UInt64) :
    planPath ws generation = .ok ⟨ws.map planEntry, some (routeWire (ws.map planEntry)), generation⟩ := by
  have hlength := h.length_le
  obtain ⟨b, hb, -, hbytes, hsize⟩ := @appendBlobs_eq (ws.map planEntry) nLayers (planEntries_ok ws) none 0
    (by rw [List.length_map]; omega) (by simp)
  rw [List.length_map, Nat.zero_add] at hsize
  have hroom : (b.getD []).length ≤ maxLayer * entryMax :=
    hsize.trans (Nat.mul_le_mul_right _ (by omega))
  have hpos : ¬(ws.map planEntry).length = 0 := by
    rw [List.length_map, List.length_eq_zero_iff]
    exact hne
  rw [planPath]
  simp only [hb]
  rw [if_neg hpos, appendReturnUpstream_eq hroom, hbytes]
  rfl

end Tiles

/-! ## The plan -/

section Plan

variable {c : Coordinator} {q : Qsort (@routeCmp c.nLayers)} {r : Registry c.nLayers}

theorem Qsort.starts (q : Qsort (@routeCmp nLayers)) (workers : List (Worker nLayers)) :
    (q.sort workers).Pairwise fun a b => a.layerStart ≤ b.layerStart :=
  (q.sorted workers).imp routeCmp_nonpos

theorem last_toNat (hlocal : c.localEnd < c.nLayers) : (c.nLayers - 1).toNat + 1 = c.nLayers.toNat := by
  rw [UInt32.lt_iff_toNat_lt] at hlocal
  have hone : (1 : UInt32) ≤ c.nLayers := by
    rw [UInt32.le_iff_toNat_le]
    have h1 : (1 : UInt32).toNat = 1 := rfl
    omega
  have hsub := UInt32.toNat_sub_of_le _ _ hone
  have h1 : (1 : UInt32).toNat = 1 := rfl
  omega

/-- The coordinator runs every layer itself. -/
def Alone (c : Coordinator) : Prop :=
  c.localEnd = c.nLayers - 1 ∧ (c.localHasOutput || c.localCanOutputHead) = true

theorem Alone.chain (hlocal : c.localEnd < c.nLayers) (h : Alone c) : RouteChain c r.workers [] where
  registered := nofun
  tiles := by
    have hlast := last_toNat hlocal
    rw [← h.1] at hlast
    exact hlast
  hidden := nofun
  output := (Bool.or_eq_true _ _).mp h.2

theorem buildRoutePlan_alone (hstart : c.localStart = 0) (h : Alone c) :
    buildRoutePlan c q r = .ok ⟨[], none, r.generation⟩ := by
  rw [buildRoutePlan, if_neg (not_not.mpr hstart)]
  exact if_pos h

theorem RouteChain.ne_nil (hlocal : c.localEnd < c.nLayers) (hnot : ¬Alone c) {ws : List (Worker c.nLayers)}
    (h : RouteChain c r.workers ws) : ws ≠ [] := by
  rintro rfl
  have htiles : c.localEnd.toNat + 1 = c.nLayers.toNat := h.tiles
  have hlast := last_toNat hlocal
  refine hnot ⟨UInt32.toNat_inj.mp (by omega), ?_⟩
  rw [Bool.or_eq_true]
  exact h.output

theorem nextLayer_toNat (hlocal : c.localEnd < c.nLayers) :
    (c.localEnd + 1).toNat = c.localEnd.toNat + 1 := toNat_succ hlocal

/-- **How the search ends**: with a route, or there is none. -/
theorem search_spec (hlocal : c.localEnd < c.nLayers) (hnot : ¬Alone c) (q : Qsort (@routeCmp c.nLayers))
    (r : Registry c.nLayers) :
    (∃ ws, searchWorkers c.localCanOutputHead (q.sort r.workers) (c.nLayers - 1) (c.localEnd + 1)
        (q.sort r.workers) false [] (c.localEnd + 1) = .found ws ∧ ws ≠ [] ∧ RouteChain c r.workers ws) ∨
      ∃ layer, searchWorkers c.localCanOutputHead (q.sort r.workers) (c.nLayers - 1) (c.localEnd + 1)
        (q.sort r.workers) false [] (c.localEnd + 1) = .missing layer ∧
          ∀ ws, ¬RouteChain c r.workers ws := by
  have hlast := last_toNat hlocal
  have hnext := nextLayer_toNat hlocal
  have hmem : ∀ w, w ∈ q.sort r.workers ↔ w ∈ r.workers := fun w => (q.perm r.workers).mem_iff
  cases hsearch : searchWorkers c.localCanOutputHead (q.sort r.workers) (c.nLayers - 1) (c.localEnd + 1)
      (q.sort r.workers) false [] (c.localEnd + 1) with
  | found path =>
    left
    obtain ⟨ws, rfl, hgoes⟩ := goes_of_found (fun _ h => h) hsearch
    obtain ⟨hin, htiles, hhidden, w, hw, hout⟩ := hgoes.chain hlast
    obtain ⟨first, rest, rfl, -, -⟩ := hgoes.first
    refine ⟨first :: rest, rfl, by simp, fun x hx => (hmem x).mp (hin x hx), ?_, hhidden, ?_⟩
    · rwa [hnext] at htiles
    · rw [hw]
      exact hout
  | missing layer =>
    refine Or.inr ⟨layer, rfl, fun ws hchain => ?_⟩
    obtain ⟨first, rest, rfl⟩ := List.exists_cons_of_ne_nil (hchain.ne_nil hlocal hnot)
    have hgoes : Goes c.localCanOutputHead (q.sort r.workers) (c.nLayers - 1) (c.localEnd + 1)
        (first :: rest) := by
      refine goes_of_chain hlast (fun x hx => (hmem x).mpr (hchain.registered x hx)) ?_ hchain.hidden ?_
      · rw [hnext]
        exact hchain.tiles
      · intro x hx
        have hout := hchain.output
        rwa [hx] at hout
    have hfirst : first ∈ q.sort r.workers := (hmem first).mpr (hchain.registered first (by simp))
    exact not_missing_of_goes (q.starts r.workers) (q.starts r.workers) hfirst hgoes layer hsearch
  | overrun =>
    refine absurd hsearch (not_overrun (fun _ h => h) ⟨nofun, List.Pairwise.nil⟩)

/-- What the planner returns: a plan of a route, or a refusal when there is no route. -/
theorem buildRoutePlan_cases (hstart : c.localStart = 0) (hlocal : c.localEnd < c.nLayers)
    (q : Qsort (@routeCmp c.nLayers)) (r : Registry c.nLayers) :
    (∃ plan ws, buildRoutePlan c q r = .ok plan ∧ RouteChain c r.workers ws ∧
        plan.entries = ws.map planEntry ∧ plan.blob = if ws = [] then none else some (routeWire plan.entries)) ∨
      ((∃ text, buildRoutePlan c q r = .error (.refused text)) ∧ ∀ ws, ¬RouteChain c r.workers ws) := by
  by_cases hnot : Alone c
  · exact Or.inl ⟨_, [], buildRoutePlan_alone hstart hnot, hnot.chain hlocal, rfl, (if_pos rfl).symm⟩
  · have hbuild : buildRoutePlan c q r =
        match searchWorkers c.localCanOutputHead (q.sort r.workers) (c.nLayers - 1) (c.localEnd + 1)
          (q.sort r.workers) false [] (c.localEnd + 1) with
        | .overrun => .error .overrun
        | .missing layer =>
          .error (.refused ("distributed route incomplete: missing layer " ++ toString layer.toNat))
        | .found path => planPath path r.generation := by
      rw [buildRoutePlan, if_neg (not_not.mpr hstart)]
      exact if_neg hnot
    rcases search_spec hlocal hnot q r with ⟨ws, hsearch, hne, hchain⟩ | ⟨layer, hsearch, hnone⟩
    · rw [hsearch] at hbuild
      refine Or.inl ⟨_, ws, hbuild.trans (planPath_eq hchain.tiles c.layers_le hne r.generation), hchain, rfl, ?_⟩
      rw [if_neg hne]
    · rw [hsearch] at hbuild
      exact Or.inr ⟨⟨_, hbuild⟩, hnone⟩

/-- **Route planning** is sound and complete, and what it writes is accepted. -/
theorem buildRoutePlan_spec (c : Coordinator) (q : Qsort (@routeCmp c.nLayers))
    (ops : List (Registry.Op c.nLayers)) (hstart : c.localStart = 0) (hlocal : c.localEnd < c.nLayers) :
    ((∃ plan, buildRoutePlan c q (Registry.after ops) = .ok plan) ↔
        ∃ ws, RouteChain c (Registry.after ops).workers ws) ∧
      buildRoutePlan c q (Registry.after ops) ≠ .error .overrun ∧
      ∀ plan, buildRoutePlan c q (Registry.after ops) = .ok plan →
        (∃ ws, RouteChain c (Registry.after ops).workers ws ∧ ws.Nodup ∧ plan.entries = ws.map planEntry) ∧
        validateBlob plan.blob plan.entries.length c.nLayers = .ok () ∧
        (∀ i e, plan.entries[i]? = some e → getEntry plan.blob plan.entries.length i = .ok e) ∧
        (plan.entries ≠ [] →
          getReturnTarget plan.blob plan.entries.length = .ok ⟨[], 0, routeReturnUpstream⟩) := by
  rcases buildRoutePlan_cases hstart hlocal q (Registry.after ops) with
    ⟨plan, ws, hplan, hchain, hentries, hblob⟩ | ⟨⟨text, hrefused⟩, hnone⟩
  · rw [hplan]
    refine ⟨iff_of_true ⟨plan, rfl⟩ ⟨ws, hchain⟩, nofun, ?_⟩
    rintro _ ⟨⟩
    have hok := planEntries_ok ws
    rw [← hentries] at hok
    refine ⟨⟨ws, hchain, hchain.tiles.nodup, hentries⟩, ?_⟩
    cases ws with
    | nil =>
      have hnil : plan.entries = [] := hentries
      rw [hblob, hnil]
      exact ⟨rfl, nofun, fun hne => absurd rfl hne⟩
    | cons w ws =>
      have hlength : ¬plan.entries.length = 0 := by
        rw [hentries]
        simp
      rw [if_neg (by simp)] at hblob
      rw [hblob]
      refine ⟨?_, fun i e hi => ?_, fun _ => ?_⟩
      · have hcontiguous : Contiguous none plan.entries := by
          rw [hentries]
          exact hchain.tiles.contiguous nofun
        rw [validateBlob, if_neg hlength]
        exact validateFrom_routeWire hok hcontiguous
      · have hlt : ¬plan.entries.length ≤ i := Nat.not_le.mpr (List.getElem?_eq_some_iff.mp hi).1
        rw [getEntry]
        rw [if_neg hlt]
        exact getEntryFrom_routeWire hok hi
      · rw [getReturnTarget]
        rw [if_neg hlength]
        exact getReturnFrom_routeWire hok
  · rw [hrefused]
    exact ⟨iff_of_false nofun fun ⟨ws, hchain⟩ => hnone ws hchain, nofun, nofun⟩

end Plan

/-! ## Two routes -/

theorem routeCmp_le_zero {a b : Worker nLayers} : routeCmp a b ≤ 0 ↔
    a.layerStart.toNat < b.layerStart.toNat ∨ a.layerStart.toNat = b.layerStart.toNat ∧
      (a.hasOutput = true ∧ b.hasOutput = false ∨
        a.hasOutput = b.hasOutput ∧ b.layerEnd.toNat ≤ a.layerEnd.toNat) := by
  unfold routeCmp
  simp only [UInt32.lt_iff_toNat_lt]
  cases a.hasOutput <;> cases b.hasOutput <;> split_ifs <;> simp_all <;> omega

/-- A merge sort in the order of the route. -/
def routeSort : Qsort (@routeCmp nLayers) where
  sort l := l.mergeSort fun a b => decide (routeCmp a b ≤ 0)
  perm l := List.mergeSort_perm l _
  sorted l := by
    refine (List.pairwise_mergeSort ?_ ?_ l).imp fun h => of_decide_eq_true h
    · intro a b d hab hbd
      rw [decide_eq_true_eq, routeCmp_le_zero] at *
      grind
    · intro a b
      rw [Bool.or_eq_true, decide_eq_true_eq, decide_eq_true_eq, routeCmp_le_zero, routeCmp_le_zero]
      cases a.hasOutput <;> cases b.hasOutput <;> simp <;> omega

/-- A coordinator with the first two layers and no output head. -/
def overlapCoordinator : Coordinator where
  modelId := 1
  modelName := []
  nLayers := 6
  localStart := 0
  localEnd := 1
  ctxSize := 0
  localHasOutput := false
  localCanOutputHead := false
  layers_le := by decide

/-- A worker of six layers behind the first two. -/
def overlapWorker (fd : Int) (host : UInt8) (layerStart layerEnd : UInt32) (hasOutput : Bool)
    (h : (0 : UInt8) ∉ [host] ∧ layerStart ≤ layerEnd ∧ layerEnd < 6 ∧ (hasOutput = true → layerEnd + 1 = 6)) :
    Worker overlapCoordinator.nLayers where
  fd := fd
  peerHost := ⟨[host], Nat.one_pos, Nat.one_lt_succ_succ 1023, h.1⟩
  modelId := 1
  layerStart := layerStart
  layerEnd := layerEnd
  hasOutput := hasOutput
  hasHidden := true
  listenPort := 9000
  start_le := h.2.1
  end_lt := h.2.2.1
  output_end := h.2.2.2
  port_ne := by decide
  port_le := by decide

/-- Behind this one, which is tried first, there is no way. -/
def deadEnd : Worker overlapCoordinator.nLayers := overlapWorker 3 97 2 4 false (by decide)
/-- The two that are a route, and one across them. -/
def firstHop (fd : Int) : Worker overlapCoordinator.nLayers := overlapWorker fd 98 2 3 false (by decide)
def lastHop : Worker overlapCoordinator.nLayers := overlapWorker 5 99 4 5 true (by decide)
def across : Worker overlapCoordinator.nLayers := overlapWorker 6 100 3 5 true (by decide)

/-- They register, one of them twice, and another is gone again. -/
def overlapOps : List (Registry.Op overlapCoordinator.nLayers) :=
  [.add lastHop, .add (firstHop 4), .add (firstHop 8), .add across, .add { lastHop with fd := 9, modelId := 2 },
    .add deadEnd, .remove 9]

theorem overlap_workers : (Registry.after overlapOps).workers = [deadEnd, across, firstHop 8, lastHop] := rfl

theorem overlap_next {next : Nat} {w : Worker overlapCoordinator.nLayers} {ws : List (Worker overlapCoordinator.nLayers)}
    (hin : ∀ x ∈ w :: ws, x ∈ [deadEnd, across, firstHop 8, lastHop]) (h : Tiles next 6 (w :: ws)) :
    w = deadEnd ∧ next = 2 ∧ Tiles 5 6 ws ∨ w = across ∧ next = 3 ∧ Tiles 6 6 ws ∨
      w = firstHop 8 ∧ next = 2 ∧ Tiles 4 6 ws ∨ w = lastHop ∧ next = 4 ∧ Tiles 6 6 ws := by
  obtain ⟨hstart, hrest⟩ := h
  have hw := hin w (List.mem_cons_self ..)
  simp only [List.mem_cons, List.not_mem_nil, or_false] at hw
  rcases hw with rfl | rfl | rfl | rfl
  · exact .inl ⟨rfl, hstart.symm, hrest⟩
  · exact .inr (.inl ⟨rfl, hstart.symm, hrest⟩)
  · exact .inr (.inr (.inl ⟨rfl, hstart.symm, hrest⟩))
  · exact .inr (.inr (.inr ⟨rfl, hstart.symm, hrest⟩))

theorem overlap_chain {ws : List (Worker overlapCoordinator.nLayers)}
    (h : RouteChain overlapCoordinator (Registry.after overlapOps).workers ws) : ws = [firstHop 8, lastHop] := by
  have hin := h.registered
  rw [overlap_workers] at hin
  have htiles : Tiles 2 6 ws := h.tiles
  cases ws with
  | nil => cases htiles
  | cons w ws =>
    have htail := fun x hx => hin x (List.mem_cons_of_mem w hx)
    rcases overlap_next hin htiles with ⟨-, -, hrest⟩ | ⟨-, hnext, -⟩ | ⟨rfl, -, hrest⟩ | ⟨-, hnext, -⟩
    · -- Nobody starts behind the dead end.
      cases ws with
      | nil => cases hrest
      | cons x ws => rcases overlap_next htail hrest with ⟨-, h, -⟩ | ⟨-, h, -⟩ | ⟨-, h, -⟩ | ⟨-, h, -⟩ <;> omega
    · omega
    · cases ws with
      | nil => cases hrest
      | cons x ws =>
        rcases overlap_next htail hrest with ⟨-, h, -⟩ | ⟨-, h, -⟩ | ⟨-, h, -⟩ | ⟨rfl, -, hend⟩
        · omega
        · omega
        · omega
        · cases ws with
          | nil => rfl
          | cons y ws =>
            rcases overlap_next (fun z hz => htail z (List.mem_cons_of_mem _ hz)) hend with
              ⟨-, h, -⟩ | ⟨-, h, -⟩ | ⟨-, h, -⟩ | ⟨-, h, -⟩ <;> omega
    · omega

/-- The search backs out of the dead end, and the blob of the two hops is read back. -/
theorem buildRoutePlan_spec_overlap : ∃ plan,
    buildRoutePlan overlapCoordinator routeSort (Registry.after overlapOps) = .ok plan ∧
      plan.entries = [planEntry (firstHop 8), planEntry lastHop] ∧ validateBlob plan.blob 2 6 = .ok () ∧
      getEntry plan.blob 2 0 = .ok (planEntry (firstHop 8)) ∧ getEntry plan.blob 2 1 = .ok (planEntry lastHop) ∧
      getReturnTarget plan.blob 2 = .ok ⟨[], 0, routeReturnUpstream⟩ := by
  have hroute : RouteChain overlapCoordinator (Registry.after overlapOps).workers [firstHop 8, lastHop] := by
    refine ⟨?_, ⟨rfl, rfl, rfl⟩, ?_, .inl rfl⟩
    · rw [overlap_workers]
      simp
    · rintro w hw -
      rcases List.mem_cons.mp hw with rfl | hw
      · rfl
      · rw [List.mem_singleton.mp hw]
        rfl
  obtain ⟨hiff, -, hplans⟩ := buildRoutePlan_spec overlapCoordinator routeSort overlapOps rfl (by decide)
  obtain ⟨plan, hplan⟩ := hiff.mpr ⟨_, hroute⟩
  obtain ⟨⟨ws, hchain, -, hentries⟩, hvalid, hget, hreturn⟩ := hplans plan hplan
  rw [overlap_chain hchain] at hentries
  rw [hentries] at hvalid hget hreturn
  exact ⟨plan, hplan, hentries, hvalid, hget 0 _ rfl, hget 1 _ rfl, hreturn (List.cons_ne_nil _ _)⟩

/-- One layer, and the coordinator owns it with its output head. -/
def aloneCoordinator : Coordinator where
  modelId := 1
  modelName := []
  nLayers := 1
  localStart := 0
  localEnd := 0
  ctxSize := 0
  localHasOutput := true
  localCanOutputHead := true
  layers_le := by decide

/-- A plan without a hop has no final destination. -/
theorem alone_without_return : ¬∀ plan,
    buildRoutePlan aloneCoordinator routeSort (Registry.after []) = .ok plan →
      getReturnTarget plan.blob plan.entries.length = .ok ⟨[], 0, routeReturnUpstream⟩ := by
  intro h
  have hplan : buildRoutePlan aloneCoordinator routeSort (Registry.after []) = .ok ⟨[], none, 0⟩ :=
    buildRoutePlan_alone rfl ⟨rfl, rfl⟩
  cases h _ hplan

end Ds4.Dist

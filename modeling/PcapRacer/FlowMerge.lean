/-
**Merging flow tables.**

`FlowTable.merge` stitches the tables of two chunks together, with update rules of its own for every
field of a flow.  They follow those of `FlowTable.observe` for what a flow counts and for the
details taken from the first packet that carries them.  They part for the service: observing prefers
the most specific layer of the conversation, merging keeps what the first table has.

Main definitions:

* `Flow.merge`, `FlowTable.mergeOne`, `FlowTable.merge` — the second code path;
* `Flow.unnumbered` — a flow without its number;
* `Flow.Names` — the details taken from the first packet that carries them;
* `FlowTable.ServicesAgree` — no service of the first table gives way to one of the second.

Main results:

* `Flow.merge_eq_foldl` — merging is folding the packets in, but for the service;
* `Flow.service_foldl` — the service of a flow, over its packets;
* `FlowTable.lookup_merge` — what a merge leaves under a key;
* `FlowTable.merge_eq_run_iff` — **merging is observing exactly when the services agree**.
-/

import Mathlib.Data.List.Sigma
import PcapRacer.FlowOrder

set_option relaxedAutoImplicit false
set_option autoImplicit false

namespace PcapRacer

open BoundedTable (len Refuses)

/-! ### The second code path -/

/-- What stands in the slot stays. -/
def takeOwned (slot v : Option Text) : Option Text := if slot.isNone then v else slot

theorem takeOwned_eq (slot v : Option Text) : takeOwned slot v = slot.or v := by
  cases slot <;> rfl

namespace Flow

/-- Another flow of the same conversation, folded in. -/
def merge (existing f : Flow) : Flow :=
  { existing with
    firstTs := min existing.firstTs f.firstTs
    lastTs := max existing.lastTs f.lastTs
    firstFrame := min existing.firstFrame f.firstFrame
    lastFrame := max existing.lastFrame f.lastFrame
    packetsC2s := existing.packetsC2s + f.packetsC2s
    packetsS2c := existing.packetsS2c + f.packetsS2c
    bytesC2s := existing.bytesC2s + f.bytesC2s
    bytesS2c := existing.bytesS2c + f.bytesS2c
    tcpFlagsC2s := existing.tcpFlagsC2s ||| f.tcpFlagsC2s
    tcpFlagsS2c := existing.tcpFlagsS2c ||| f.tcpFlagsS2c
    synCount := existing.synCount + f.synCount
    finCount := existing.finCount + f.finCount
    rstCount := existing.rstCount + f.rstCount
    finC2s := existing.finC2s || f.finC2s
    finS2c := existing.finS2c || f.finS2c
    synC2s := existing.synC2s || f.synC2s
    synackS2c := existing.synackS2c || f.synackS2c
    sawReset := existing.sawReset || f.sawReset
    sni := takeOwned existing.sni f.sni
    httpHost := takeOwned existing.httpHost f.httpHost
    dnsQname := takeOwned existing.dnsQname f.dnsQname
    ja3 := takeOwned existing.ja3 f.ja3
    ja3s := takeOwned existing.ja3s f.ja3s
    ja4 := takeOwned existing.ja4 f.ja4
    service := takeOwned existing.service f.service }

end Flow

namespace FlowTable

/-- One flow of the other table. -/
def mergeOne (t : FlowTable) (key : Tuple) (f : Flow) : FlowTable :=
  match t.flows.lookup key with
  | some existing => { t with flows := t.flows.insert key (existing.merge f) }
  | none =>
      { t with flows := t.flows.insert key { f with id := t.nextId }, nextId := t.nextId + 1 }

/-- Merge another table into this one.  The last argument is the order in which the other table
lists its flows. -/
def merge (t other : FlowTable) (order : List (Σ _ : Tuple, Flow)) : FlowTable :=
  order.foldl (fun t e => t.mergeOne e.1 e.2) { t with evicted := t.evicted + other.evicted }

end FlowTable

/-! ### The parts of a flow -/

namespace Flow

/-- The details that are taken from the first packet that carries them. -/
@[ext] structure Names where
  sni : Option Text
  httpHost : Option Text
  dnsQname : Option Text
  ja3 : Option Text
  ja3s : Option Text
  ja4 : Option Text

namespace Names

/-- The details of one packet. -/
def of (pkt : Packet) : Names :=
  { sni := pkt.app.tls.tlsSni, httpHost := pkt.app.http.httpHost, dnsQname := pkt.app.dns.dnsQname
    ja3 := pkt.app.tls.ja3, ja3s := pkt.app.tls.ja3s, ja4 := pkt.app.tls.ja4 }

/-- The first ones stay. -/
def join (a b : Names) : Names :=
  { sni := a.sni.or b.sni, httpHost := a.httpHost.or b.httpHost
    dnsQname := a.dnsQname.or b.dnsQname
    ja3 := a.ja3.or b.ja3, ja3s := a.ja3s.or b.ja3s, ja4 := a.ja4.or b.ja4 }

theorem join_assoc (a b c : Names) : (a.join b).join c = a.join (b.join c) := by
  ext1 <;> exact Option.or_assoc

end Names

def names (f : Flow) : Names :=
  { sni := f.sni, httpHost := f.httpHost, dnsQname := f.dnsQname, ja3 := f.ja3, ja3s := f.ja3s
    ja4 := f.ja4 }

/-- The flow without its number. -/
def unnumbered (f : Flow) : Flow := { f with id := 0 }

/-- A flow is its number, its key and Community ID, what it counts, the details and the service. -/
theorem eq_of_parts {f g : Flow} (hid : f.id = g.id) (hkey : f.key = g.key)
    (hcommunity : f.communityId = g.communityId) (htotals : f.totals = g.totals)
    (hnames : f.names = g.names) (hservice : f.service = g.service) : f = g := by
  cases f
  cases g
  simp only [totals, names, Totals.mk.injEq, Names.mk.injEq] at htotals hnames
  simp_all

@[simp] theorem unnumbered_key (f : Flow) : f.unnumbered.key = f.key := rfl

@[simp] theorem unnumbered_communityId (f : Flow) : f.unnumbered.communityId = f.communityId := rfl

@[simp] theorem unnumbered_totals (f : Flow) : f.unnumbered.totals = f.totals := rfl

@[simp] theorem unnumbered_names (f : Flow) : f.unnumbered.names = f.names := rfl

@[simp] theorem unnumbered_service (f : Flow) : f.unnumbered.service = f.service := rfl

theorem merge_totals (f g : Flow) : (f.merge g).totals = f.totals.join g.totals := rfl

theorem merge_names (f g : Flow) : (f.merge g).names = f.names.join g.names := by
  simp only [merge, names, Names.join, takeOwned_eq]

theorem merge_service (f g : Flow) : (f.merge g).service = f.service.or g.service :=
  takeOwned_eq _ _

/-! ### Folding packets in -/

/-- One packet into its flow. -/
def see (f : Flow) (o : Observation) : Flow := f.fold o.forward o.pkt o.ts o.frame o.len

variable (f g : Flow) (o : Observation)

theorem see_id : (f.see o).id = f.id := fold_id ..

theorem see_key : (f.see o).key = f.key := fold_key ..

theorem see_communityId : (f.see o).communityId = f.communityId := fold_communityId ..

theorem see_totals : (f.see o).totals = f.totals.join (.of o) := fold_totals f o

theorem see_names : (f.see o).names = f.names.join (.of o.pkt) := by
  unfold see fold
  cases o.pkt.transport.tcpFlags <;> cases o.forward <;> rfl

theorem see_service : (f.see o).service = takeService f.service o.pkt.frame.highestLayer := by
  unfold see fold
  cases o.pkt.transport.tcpFlags <;> cases o.forward <;> rfl

theorem unnumbered_see : (f.see o).unnumbered = f.unnumbered.see o := by
  refine eq_of_parts ?_ ?_ ?_ ?_ ?_ ?_
  · rw [see_id]; rfl
  · rw [see_key, unnumbered_key, see_key, unnumbered_key]
  · rw [see_communityId, unnumbered_communityId, see_communityId, unnumbered_communityId]
  · rw [see_totals, unnumbered_totals, see_totals, unnumbered_totals]
  · rw [see_names, unnumbered_names, see_names, unnumbered_names]
  · rw [see_service, unnumbered_service, see_service, unnumbered_service]

/-! ### Merging and folding in -/

/-- The third flow is the first with the packets of the second folded in, but for the service. -/
structure Joined (f g h : Flow) : Prop where
  id : h.id = f.id
  key : h.key = f.key
  communityId : h.communityId = f.communityId
  totals : h.totals = f.totals.join g.totals
  names : h.names = f.names.join g.names

variable {f g} {h : Flow}

/-- One more packet of the second. -/
theorem Joined.see (hj : Joined f g h) (o : Observation) : Joined f (g.see o) (h.see o) where
  id := (see_id ..).trans hj.id
  key := (see_key ..).trans hj.key
  communityId := (see_communityId ..).trans hj.communityId
  totals := by rw [see_totals, see_totals, hj.totals, Totals.join_assoc]
  names := by rw [see_names, see_names, hj.names, Names.join_assoc]

theorem Joined.foldl (hj : Joined f g h) (obs : List Observation) :
    Joined f (obs.foldl Flow.see g) (obs.foldl Flow.see h) := by
  induction obs generalizing g h with
  | nil => exact hj
  | cons o obs ih => exact ih (hj.see o)

/-- The first packet of the second. -/
theorem joined_fresh [Hashes] (f : Flow) (o : Observation) :
    Joined f ((fresh 0 o.tuple.key o.ts o.frame).see o) (f.see o) where
  id := see_id ..
  key := see_key ..
  communityId := see_communityId ..
  totals := by rw [see_totals]; exact congrArg f.totals.join (fresh_fold_totals 0 o).symm
  names := by rw [see_names, see_names]; rfl

/-- **Merging is folding the packets in, but for the service.** -/
theorem Joined.merge_eq_iff (hj : Joined f g h) :
    f.merge g = h ↔ f.service.or g.service = h.service := by
  constructor
  · rintro rfl
    exact (merge_service f g).symm
  · intro hservice
    refine eq_of_parts hj.id.symm hj.key.symm hj.communityId.symm ?_ ?_ ?_
    · rw [merge_totals, hj.totals]
    · rw [merge_names, hj.names]
    · rw [merge_service, hservice]

/-! ### The service -/

/-- The service is the transport only, and gives way to a more specific layer. -/
def Vague (service : Option Text) : Prop :=
  service = some "tcp".toList ∨ service = some "udp".toList

instance (service : Option Text) : Decidable (Vague service) :=
  inferInstanceAs (Decidable (_ ∨ _))

theorem service_foldl (f : Flow) (obs : List Observation) :
    (obs.foldl Flow.see f).service =
      (obs.map fun o => o.pkt.frame.highestLayer).foldl takeService f.service := by
  induction obs generalizing f with
  | nil => rfl
  | cons o obs ih =>
      rw [List.foldl_cons, ih, see_service]
      rfl

/-- A service, once there, stays or is replaced. -/
theorem isSome_foldl_takeService (layers : List (Option Text)) (s : Text) :
    (layers.foldl takeService (some s)).isSome := by
  induction layers generalizing s with
  | nil => rfl
  | cons layer layers ih =>
      rw [List.foldl_cons]
      cases layer with
      | none => exact ih s
      | some l =>
          rw [takeService]
          split
          · exact ih l
          · exact ih s

/-- A specific service stays. -/
theorem foldl_takeService_of_specific (layers : List (Option Text)) {s : Text}
    (hs : ¬ Vague (some s)) : layers.foldl takeService (some s) = some s := by
  induction layers with
  | nil => rfl
  | cons layer layers ih =>
      have hstay : takeService (some s) layer = some s := by
        cases layer with
        | none => rfl
        | some l => exact if_neg fun h => h.elim (nofun) hs
      rw [List.foldl_cons, hstay, ih]

/-- A vague service gives way to whatever comes, as if there had been none. -/
theorem foldl_takeService_of_vague (layers : List (Option Text)) {service : Option Text}
    (hs : service = none ∨ Vague service) :
    layers.foldl takeService service = (layers.foldl takeService none).or service := by
  induction layers with
  | nil => rfl
  | cons layer layers ih =>
      rw [List.foldl_cons, List.foldl_cons]
      cases layer with
      | none => exact ih
      | some l =>
          have htake : takeService service (some l) = some l := if_pos hs
          rw [htake]
          exact (Option.or_of_isSome (isSome_foldl_takeService layers l)).symm

/-- Keeping the first service is preferring the most specific one, unless the first gives way. -/
theorem service_or_eq_iff (service : Option Text) (layers : List (Option Text)) :
    service.or (layers.foldl takeService none) = layers.foldl takeService service ↔
      (Vague service → layers.foldl takeService none = none ∨
        layers.foldl takeService none = service) := by
  cases hs : service with
  | none => simp [Vague]
  | some s =>
      by_cases hv : Vague (some s)
      · rw [foldl_takeService_of_vague layers (.inr hv)]
        cases layers.foldl takeService none with
        | none => simp [hv]
        | some l =>
            simp only [Option.or_some, hv, true_implies, reduceCtorEq, false_or]
            exact eq_comm
      · rw [foldl_takeService_of_specific layers hv]
        simp [hv]

end Flow

/-! ### The tables -/

namespace FlowTable

/-- The flow of a key, without its number. -/
def view (t : FlowTable) (key : Tuple) : Option Flow := (t.flows.lookup key).map Flow.unnumbered

theorem view_mergeOne (t : FlowTable) (key key' : Tuple) (f : Flow) :
    (t.mergeOne key' f).view key =
      if key = key' then Option.merge Flow.merge (t.view key') (some f.unnumbered)
      else t.view key := by
  have hlookup : ∀ (t' : FlowTable) (g : Flow), t'.flows = t.flows.insert key' g →
      t'.view key = if key = key' then some g.unnumbered else t.view key := by
    intro t' g h
    rw [view, h]
    split
    · next hk => rw [hk, AList.lookup_insert]; rfl
    · next hk => rw [AList.lookup_insert_ne hk]; rfl
  unfold mergeOne
  cases hf : t.flows.lookup key' with
  | none =>
      have hview : t.view key' = none := by rw [view, hf]; rfl
      rw [hlookup _ { f with id := t.nextId } rfl, hview]
      rfl
  | some existing =>
      have hview : t.view key' = some existing.unnumbered := by rw [view, hf]; rfl
      rw [hlookup _ (existing.merge f) rfl, hview]
      rfl

/-- **What a merge leaves under a key.** -/
theorem view_merge (t other : FlowTable) {order : List (Σ _ : Tuple, Flow)}
    (horder : order.Perm other.flows.entries) (key : Tuple) :
    (t.merge other order).view key =
      Option.merge Flow.merge (t.view key) (other.view key) := by
  have hloop : ∀ (l : List (Σ _ : Tuple, Flow)) (u : FlowTable), l.NodupKeys →
      (l.foldl (fun t e => t.mergeOne e.1 e.2) u).view key =
        Option.merge Flow.merge (u.view key) ((l.dlookup key).map Flow.unnumbered) := by
    intro l
    induction l with
    | nil =>
        intro u _
        cases h : u.view key with
        | none => exact h
        | some f => exact h
    | cons e l ih =>
        intro u hnodup
        obtain ⟨hnew, hnodup⟩ := List.nodupKeys_cons.mp hnodup
        rw [List.foldl_cons, ih _ hnodup, view_mergeOne]
        by_cases hk : key = e.1
        · subst hk
          rw [if_pos rfl, List.dlookup_eq_none.mpr hnew]
          have hdlookup : List.dlookup e.1 (e :: l) = some e.2 := List.dlookup_cons_eq l e.1 e.2
          rw [hdlookup]
          cases u.view e.1 <;> rfl
        · rw [if_neg hk, List.dlookup_cons_ne _ _ hk]
  have hnodup : order.NodupKeys := (List.perm_nodupKeys horder).mpr other.flows.nodupKeys
  rw [merge, hloop order _ hnodup, List.perm_dlookup key hnodup horder]
  rfl

/-- No service of the first table gives way to one of the second: where it is the transport only,
the second table has none or the same. -/
def ServicesAgree (t other : FlowTable) : Prop :=
  ∀ key f g, t.flows.lookup key = some f → other.flows.lookup key = some g →
    Flow.Vague f.service → g.service = none ∨ g.service = f.service

theorem servicesAgree_iff (t other : FlowTable) :
    ServicesAgree t other ↔ ∀ key f g, t.view key = some f → other.view key = some g →
      Flow.Vague f.service → g.service = none ∨ g.service = f.service := by
  refine forall_congr' fun key => ?_
  unfold view
  cases t.flows.lookup key with
  | none => simp
  | some f =>
      cases other.flows.lookup key with
      | none => simp
      | some g => simp

section Run

variable [Hashes]

/-- A packet of a conversation, and the flow there is so far. -/
def seeNext (f : Option Flow) (o : Observation) : Option Flow :=
  some ((f.getD (Flow.fresh 0 o.tuple.key o.ts o.frame)).see o)

theorem foldl_seeNext_some (f : Flow) (obs : List Observation) :
    obs.foldl seeNext (some f) = some (obs.foldl Flow.see f) := by
  induction obs generalizing f with
  | nil => rfl
  | cons o obs ih => exact ih (f.see o)

/-- **The flow of a key is its packets, folded in one after the other.** -/
theorem view_run {maxFlows : ℕ} {obs : List Observation}
    (hfits : (conversations obs).length ≤ maxFlows) (key : Tuple) :
    ((new maxFlows).run obs).view key = (packetsOf key obs).foldl seeNext none := by
  induction obs using List.reverseRecOn with
  | nil => rfl
  | append_singleton obs o ih =>
      have hprev := ih ((conversations_length_le_of_initial (List.prefix_append _ _)).trans hfits)
      rw [view, run_concat, lookup_step (not_refuses_of_fits hfits)]
      by_cases hk : key = o.tuple.key
      · subst hk
        have hmine : packetsOf o.tuple.key (obs ++ [o]) = packetsOf o.tuple.key obs ++ [o] := by
          simp [packetsOf]
        rw [if_pos rfl, hmine, List.foldl_append, ← hprev, view, folded, entry]
        change some (Flow.unnumbered (Flow.see _ o)) = some (Flow.see _ o)
        rw [Flow.unnumbered_see]
        cases ((new maxFlows).run obs).flows.lookup o.tuple.key <;> rfl
      · have hother : packetsOf key (obs ++ [o]) = packetsOf key obs := by
          simp [packetsOf, Ne.symm hk]
        rw [if_neg hk, hother, ← hprev]
        rfl

/-- One conversation: merging what was folded in apart, and folding it in one after the other. -/
theorem merge_foldl_iff (a : Option Flow) (obs : List Observation) :
    Option.merge Flow.merge a (obs.foldl seeNext none) = obs.foldl seeNext a ↔
      ∀ f g, a = some f → obs.foldl seeNext none = some g →
        Flow.Vague f.service → g.service = none ∨ g.service = f.service := by
  cases a with
  | none =>
      cases obs.foldl seeNext none <;> simp
  | some f =>
      cases obs with
      | nil => simp
      | cons o obs =>
          have hg : (o :: obs).foldl seeNext none =
              some (obs.foldl Flow.see ((Flow.fresh 0 o.tuple.key o.ts o.frame).see o)) :=
            foldl_seeNext_some _ obs
          have hjoined := (Flow.joined_fresh f o).foldl obs
          have hservice := Flow.service_or_eq_iff f.service
            ((o :: obs).map fun o => o.pkt.frame.highestLayer)
          have htheirs : (obs.foldl Flow.see
              ((Flow.fresh 0 o.tuple.key o.ts o.frame).see o)).service =
                ((o :: obs).map fun o => o.pkt.frame.highestLayer).foldl Flow.takeService none := by
            rw [Flow.service_foldl, Flow.see_service]
            rfl
          have hboth : (obs.foldl Flow.see (f.see o)).service =
              ((o :: obs).map fun o => o.pkt.frame.highestLayer).foldl Flow.takeService
                f.service := by
            rw [Flow.service_foldl, Flow.see_service]
            rfl
          rw [← htheirs, ← hboth] at hservice
          rw [hg, foldl_seeNext_some, Option.merge_some_some, Option.some_inj, List.foldl_cons,
            hjoined.merge_eq_iff, hservice]
          constructor
          · rintro h f' g' hf' hg'
            cases hf'
            cases hg'
            exact h
          · exact fun h => h f _ rfl rfl

/-- **Merging is observing exactly when the services agree.**  Whenever the conversations of two
sequences of packets fit in the table, merging the tables built from them leaves under every key the
flow that observing one after the other leaves, number apart, if and only if no service of the first
gives way to one of the second. -/
theorem merge_eq_run_iff (maxFlows : ℕ) (xs ys : List Observation)
    (hfits : (conversations (xs ++ ys)).length ≤ maxFlows) (order : List (Σ _ : Tuple, Flow))
    (horder : order.Perm ((new maxFlows).run ys).flows.entries) :
    (∀ key, ((((new maxFlows).run xs).merge ((new maxFlows).run ys) order).flows.lookup key).map
        Flow.unnumbered = (((new maxFlows).run (xs ++ ys)).flows.lookup key).map Flow.unnumbered) ↔
      ServicesAgree ((new maxFlows).run xs) ((new maxFlows).run ys) := by
  have hfits₁ : (conversations xs).length ≤ maxFlows :=
    (conversations_length_le_of_initial (List.prefix_append _ _)).trans hfits
  have hfits₂ : (conversations ys).length ≤ maxFlows := by
    have hsub : conversations ys ⊆ conversations (xs ++ ys) := by
      intro k hk
      rw [conversations, List.mem_dedup] at hk ⊢
      rw [List.map_append]
      exact List.mem_append_right _ hk
    exact (List.subperm_of_subset (List.nodup_dedup _) hsub).length_le.trans hfits
  rw [servicesAgree_iff]
  refine forall_congr' fun key => ?_
  have hpackets : packetsOf key (xs ++ ys) = packetsOf key xs ++ packetsOf key ys :=
    List.filter_append ..
  change (FlowTable.merge _ _ order).view key = FlowTable.view _ key ↔ _
  rw [view_merge _ _ horder, view_run hfits, view_run hfits₂, hpackets, List.foldl_append,
    view_run hfits₁]
  exact merge_foldl_iff _ _

end Run

/-- A packet of one conversation, with a layer name on top. -/
def layerPacket (layer : Text) : Observation :=
  { tuple := upward, pkt := { frame := { highestLayer := some layer } }, ts := 0, frame := 1
    len := 60 }

/-- The services of two chunks agree when the second says no more than the first. -/
theorem merge_eq_run_iff_same_layer :
    (conversations [layerPacket "tcp".toList, layerPacket "tcp".toList]).length ≤ 1 ∧
      ∀ _ : Hashes, ∀ key,
        ((((new 1).run [layerPacket "tcp".toList]).merge ((new 1).run [layerPacket "tcp".toList])
            ((new 1).run [layerPacket "tcp".toList]).flows.entries).flows.lookup key).map
          Flow.unnumbered =
        (((new 1).run [layerPacket "tcp".toList, layerPacket "tcp".toList]).flows.lookup key).map
          Flow.unnumbered := by
  refine ⟨by decide, fun _ => ?_⟩
  refine (merge_eq_run_iff 1 [layerPacket "tcp".toList] [layerPacket "tcp".toList] (by decide) _
    (List.Perm.refl _)).mpr ?_
  intro key f g hf hg _
  rw [hf, Option.some_inj] at hg
  exact .inr (congrArg Flow.service hg.symm)

/-- A handshake in one chunk and its ClientHello in the next: merged, the flow is plain TCP. -/
theorem merge_keeps_tcp :
    (conversations [layerPacket "tcp".toList, layerPacket "tls".toList]).length ≤ 1 ∧
      ∀ _ : Hashes,
        (((((new 1).run [layerPacket "tcp".toList]).merge ((new 1).run [layerPacket "tls".toList])
            ((new 1).run [layerPacket "tls".toList]).flows.entries).flows.lookup upward.key).map
          Flow.unnumbered).map Flow.service = some (some "tcp".toList) ∧
        ((((new 1).run [layerPacket "tcp".toList, layerPacket "tls".toList]).flows.lookup
          upward.key).map Flow.unnumbered).map Flow.service = some (some "tls".toList) :=
  ⟨by decide, fun _ => ⟨rfl, rfl⟩⟩

end FlowTable

end PcapRacer

import ThetaDirectory.Mesh.Enrolment

/-!
# The address plan of the clients

Which addresses clients hold at the nodes of a cluster, through every run in which no site is
asked for an address while all those in front of its first shadow range are taken.
-/

namespace ThetaDirectory.Mesh

open Library Library.Ipv4

/-! ## The property -/

/-- Clients hold distinct addresses and keys, and each address lies in the pool of its own site,
away from the services and the shadow ranges of every site. -/
structure Planned (clients : List MeshClient) : Prop where
  addresses : clients.Pairwise fun client other => client.assignedIp ≠ other.assignedIp
  keys : clients.Pairwise fun client other => client.publicKey ≠ other.publicKey
  pool : ∀ client ∈ clients, ∃ cidr,
    clientPoolCidr client.siteId = .ok cidr ∧ Lies cidr client.assignedIp
  services : ∀ client ∈ clients, ∀ site cidr, siteServicesCidr site = .ok cidr →
    ¬ Lies cidr client.assignedIp
  shadows : ∀ client ∈ clients, ∀ site slot cidr, shadowCidr site slot = .ok cidr →
    ¬ Lies cidr client.assignedIp

/-- The number of addresses in front of the first shadow range. -/
def beforeShadows : Nat := (168 - 128) * usablePerOctet

/-- An address in front of the shadow ranges of a site is free. -/
def Spare (siteId : Nat) (clients : List MeshClient) : Prop :=
  ∃ n ∈ List.range' 1 beforeShadows, ∀ ip ∈ taken siteId clients, clientIp siteId n ≠ .ok ip

instance (siteId : Nat) (clients : List MeshClient) : Decidable (Spare siteId clients) := by
  unfold Spare
  infer_instance

/-- An enrolment that is not refused finds an address in front of the shadow ranges. -/
def Roomy (enrolment : Enrolment) (generated : Generated) (clients : List MeshClient) : Prop :=
  match enrolment.keys generated with
  | .ok (pub, _) => (∀ client ∈ clients, client.publicKey ≠ pub) → Spare enrolment.siteId clients
  | .error _ => True

instance (enrolment : Enrolment) (generated : Generated) (clients : List MeshClient) :
    Decidable (Roomy enrolment generated clients) := by
  unfold Roomy
  split <;> infer_instance

def Event.Roomy (event : Event) (state : State) : Prop :=
  match event with
  | .enroll node enrolment generated =>
      Mesh.Roomy enrolment generated (state.nodes node).clients.rows
  | .enrollAgent node agent publicKey localSiteId generated =>
      match deviceForAgent (state.nodes node).clients.rows agent with
      | some _ => True
      | none => ∀ siteId ∈ localSiteId,
          Mesh.Roomy (agentEnrolment agent siteId (trim publicKey)) generated
            (state.nodes node).clients.rows
  | _ => True

instance (event : Event) (state : State) : Decidable (event.Roomy state) := by
  unfold Event.Roomy
  split
  · infer_instance
  · split <;> infer_instance
  · infer_instance

/-! ## Allocation -/

variable {siteId i rounds : Nat} {ip : String} {addresses : List String}
variable {clients after : Clients} {enrolment : Enrolment} {generated : Generated}

/-- The loop returns the first address that is not taken. -/
theorem firstFree_eq_ok (found : firstFree siteId addresses i rounds = .ok ip) :
    ∃ n, i ≤ n ∧ clientIp siteId n = .ok ip ∧
      ∀ earlier, i ≤ earlier → earlier < n → ∃ other ∈ addresses, clientIp siteId earlier = .ok other := by
  induction rounds generalizing i with
  | zero => cases found
  | succ rounds ih =>
      unfold firstFree at found
      cases made : clientIp siteId i with
      | error message =>
          rw [made] at found
          cases found
      | ok other =>
          rw [made] at found
          simp only [Except.mapError, bind, Except.bind] at found
          by_cases free : other ∉ addresses
          · rw [if_pos free] at found
            cases found
            exact ⟨i, Nat.le_refl i, made, fun earlier least below => by omega⟩
          · rw [if_neg free] at found
            obtain ⟨n, least, at_n, before⟩ := ih found
            refine ⟨n, Nat.le_of_succ_le least, at_n, ?_⟩
            intro earlier from_i below
            rcases Nat.eq_or_lt_of_le from_i with rfl | later
            · exact ⟨other, not_not.mp free, made⟩
            · exact before earlier later below

theorem nextFreeIp_eq_ok {clients : List MeshClient} (found : nextFreeIp siteId clients = .ok ip) :
    ∃ n, 1 ≤ n ∧ clientIp siteId n = .ok ip ∧ ∀ earlier, 1 ≤ earlier → earlier < n →
      ∃ other ∈ taken siteId clients, clientIp siteId earlier = .ok other := by
  unfold nextFreeIp at found
  cases checked : assertSiteId siteId with
  | error message =>
      rw [checked] at found
      cases found
  | ok same =>
      rw [checked] at found
      exact firstFree_eq_ok found

/-- A client has an address of its own site, in front of the shadow ranges. -/
def Placed (client : MeshClient) : Prop :=
  ∃ n, n ≤ beforeShadows ∧ clientIp client.siteId n = .ok client.assignedIp

theorem le_beforeShadows_of_spare {clients : List MeshClient} (spare : Spare siteId clients)
    (found : nextFreeIp siteId clients = .ok ip) :
    ∃ n, n ≤ beforeShadows ∧ clientIp siteId n = .ok ip := by
  obtain ⟨n, -, made, before⟩ := nextFreeIp_eq_ok found
  refine ⟨n, ?_, made⟩
  obtain ⟨free, inside, untaken⟩ := spare
  obtain ⟨least, below⟩ := List.mem_range'_1.mp inside
  by_contra beyond
  obtain ⟨other, listed, same⟩ := before free least (by omega)
  exact untaken other listed same

/-! ## Every event -/

theorem placed_enroll {enrolled : Enrolled} (roomy : Roomy enrolment generated clients.rows)
    (placed : ∀ client ∈ clients.rows, Placed client)
    (done : Mesh.enroll enrolment generated clients = .ok enrolled) :
    ∀ client ∈ enrolled.clients.rows, Placed client := by
  obtain ⟨pub, privateKey, keys, new, found, site, -, inserted⟩ := enroll_eq_ok done
  intro client member
  rcases (Table.mem_insert inserted).mp member with old | rfl
  · exact placed client old
  · rw [Roomy, keys] at roomy
    rw [Placed, site]
    exact le_beforeShadows_of_spare (roomy new) found

theorem placed_enrollAgent {agent : Agents.Agent} {publicKey : String} {localSiteId : Option Nat}
    (roomy : match deviceForAgent clients.rows agent with
      | some _ => True
      | none => ∀ siteId ∈ localSiteId,
          Roomy (agentEnrolment agent siteId (trim publicKey)) generated clients.rows)
    (placed : ∀ client ∈ clients.rows, Placed client)
    (done : Mesh.enrollAgent agent publicKey localSiteId generated clients = .ok after) :
    ∀ client ∈ after.rows, Placed client := by
  unfold Mesh.enrollAgent at done
  simp only [bind, Except.bind] at done
  split at done
  · cases done
  · split at done
    · cases done
    · rename_i siteId site
      have known : siteId ∈ localSiteId := (Option.mem_filter_iff.mp (Option.mem_def.mpr site)).1
      cases device : deviceForAgent clients.rows agent with
      | some existing =>
          simp only [device] at done
          split at done
          · cases done
            exact placed
          · split at done
            · rename_i updated
              cases done
              intro client member
              rcases Table.mem_of_update updated member with old | ⟨row, old, rfl⟩
              · exact placed client old
              · exact placed row old
            · cases done
      | none =>
          rw [device] at roomy
          simp only [device] at done
          cases enrolled : Mesh.enroll (agentEnrolment agent siteId (trim publicKey)) generated
              clients with
          | error failure =>
              rw [enrolled] at done
              cases done
          | ok result =>
              rw [enrolled] at done
              cases done
              exact placed_enroll (roomy siteId known) placed enrolled

theorem placed_deleteClient {id : String} (placed : ∀ client ∈ clients.rows, Placed client)
    (done : Mesh.deleteClient id clients = .ok after) : ∀ client ∈ after.rows, Placed client := by
  unfold Mesh.deleteClient at done
  split at done
  · cases done
    exact fun client member => placed client (Table.mem_remove.mp member).1
  · cases done

theorem placed_adoptClients {uuid : Nat → String} {meshClients : List MeshClient}
    {meshExitGrants : List MeshExitGrant} {grants : Grants}
    (placed : ∀ client ∈ clients.rows, Placed client)
    (arriving : ∀ client ∈ meshClients, Placed client) :
    ∀ client ∈ (adoptClients uuid meshClients meshExitGrants clients grants).clients.table.rows,
      Placed client := by
  have adopted : ∀ client ∈ ((clientUpsert uuid).all meshClients clients).table.rows,
      Placed client := by
    apply Upsert.forall_rows_all clients _ _ placed arriving
    · exact fun incoming row holds => holds
    · intro count incoming row holds made
      cases made
      exact holds
  unfold adoptClients
  dsimp only
  split <;> exact adopted

/-- All clients, stored or sent out, are in front of the shadow ranges. -/
structure Kept (state : State) : Prop where
  nodes : ∀ node, ∀ client ∈ (state.nodes node).clients.rows, Placed client
  exported : ∀ sent ∈ state.exported, ∀ client ∈ sent.meshClients, Placed client

theorem kept_change {state : State} {node : Nat} {tables : Node} (kept : Kept state)
    (placed : ∀ client ∈ tables.clients.rows, Placed client) :
    Kept (state.change node tables) where
  nodes := by
    intro other
    simp only [State.change]
    split
    · exact placed
    · exact kept.nodes other
  exported := kept.exported

theorem kept_store {state : State} {node : Nat} {result : Except Failure Clients}
    (kept : Kept state)
    (placed : ∀ clients, result = .ok clients → ∀ client ∈ clients.rows, Placed client) :
    Kept (state.store node result) := by
  cases result with
  | error failure => exact kept
  | ok clients => exact kept_change kept (placed clients rfl)

theorem kept_apply (event : Event) (state : State) (kept : Kept state)
    (roomy : event.Roomy state) : Kept (event.apply state) := by
  cases event with
  | enroll node enrolment generated =>
      apply kept_store kept
      intro clients done
      cases enrolled : Mesh.enroll enrolment generated (state.nodes node).clients with
      | error failure =>
          rw [enrolled] at done
          cases done
      | ok result =>
          rw [enrolled] at done
          cases done
          exact placed_enroll roomy (kept.nodes node) enrolled
  | enrollAgent node agent publicKey localSiteId generated =>
      exact kept_store kept fun clients done => placed_enrollAgent roomy (kept.nodes node) done
  | deleteClient node id =>
      exact kept_store kept fun clients done => placed_deleteClient (kept.nodes node) done
  | publish node =>
      constructor
      · exact kept.nodes
      · intro sent listed
        rcases List.mem_append.mp listed with old | new
        · exact kept.exported sent old
        · rw [List.mem_singleton.mp new]
          exact kept.nodes node
  | adopt node index uuid =>
      simp only [Event.apply]
      split
      · rename_i sent found
        exact kept_change kept (placed_adoptClients (kept.nodes node)
          (kept.exported sent (List.mem_of_getElem? found)))
      · exact kept

/-! ## Every run -/

theorem planned_of_placed (placed : ∀ client ∈ clients.rows, Placed client) :
    Planned clients.rows where
  addresses := clients.unique.imp fun differ => differ MeshClient.assignedIp (by simp)
  keys := clients.unique.imp fun differ => differ MeshClient.publicKey (by simp)
  pool := by
    intro client member
    obtain ⟨n, -, made⟩ := placed client member
    have pool : clientPoolCidr client.siteId = .ok _ :=
      assertSiteId_bind.mpr ⟨(clientIp_eq_ok.mp made).1, rfl⟩
    exact ⟨_, pool, lies_clientPool made pool⟩
  services := by
    intro client member site cidr services
    obtain ⟨n, -, made⟩ := placed client member
    exact not_lies_siteServices made services
  shadows := by
    intro client member site slot cidr shadow
    obtain ⟨n, below, made⟩ := placed client member
    have listed := (shadowCidr_eq_ok shadow).1
    simp only [SHADOW_SLOTS, List.mem_cons, List.not_mem_nil, or_false] at listed
    simp only [beforeShadows, usablePerOctet] at below
    rw [lies_shadow_iff made shadow]
    omega

theorem kept_start (grants : Nat → Grants) : Kept (start grants) where
  nodes := fun node client member => by cases member
  exported := fun sent listed => by cases listed

/-- In every run of enrolments, deletions and adoptions, the clients of every node are planned, if
each enrolment that is not refused finds an address in front of the shadow ranges. -/
theorem planned_run {grants : Nat → Grants} {events : List Event}
    (roomy : ∀ step ∈ Runs.steps Event.apply events (start grants),
      step.operation.Roomy step.before) :
    ∀ step ∈ Runs.steps Event.apply events (start grants), ∀ node,
      Planned (step.after.nodes node).clients.rows := by
  intro step member node
  have kept := Runs.forall_steps_inv (kept_start grants) roomy kept_apply step member
  exact planned_of_placed (kept.2.nodes node)

private def phone (name publicKey : String) : Event :=
  .enroll 2 ⟨"ada", name, 2, none, none, none⟩ ⟨publicKey, "private", name, ""⟩

private def laptop : Agents.Agent := ⟨"a1", "laptop", none, "", none, none, false, none, none, none⟩

private def laptopKey : String := "YWFhYWFhYWFhYWFhYWFhYWFhYWFhYWFhYWFhYWFhYWE="

/-- Two devices at site 2, the first deleted when site 3 has taken over both, and another one. -/
private def devices : List Event :=
  [phone "c1" "k1", .enrollAgent 2 laptop laptopKey (some 2) ⟨"", "", "c2", ""⟩, .publish 2,
    .adopt 3 0 fun _ => "", .deleteClient 2 "c1", phone "c3" "k3"]

theorem planned_devices :
    List.Forall (fun step : Runs.Step Event State =>
      ∀ node, Planned (step.after.nodes node).clients.rows)
      (Runs.steps Event.apply devices (start fun _ => .empty)) ∧
    ((Runs.run Event.apply devices (start fun _ => .empty)).nodes 2).clients.rows.map
      MeshClient.assignedIp = ["10.2.128.2", "10.2.128.1"] := by
  constructor
  · apply List.forall_iff_forall_mem.mpr
    apply planned_run
    decide +kernel
  · decide +kernel

/-! ## A site that fills up -/

theorem firstFree_of_free {n : Nat} (made : clientIp siteId n = .ok ip) (free : ip ∉ addresses)
    (least : i ≤ n) (below : n < i + rounds)
    (before : ∀ earlier, i ≤ earlier → earlier < n →
      ∃ other ∈ addresses, clientIp siteId earlier = .ok other) :
    firstFree siteId addresses i rounds = .ok ip := by
  induction rounds generalizing i with
  | zero => omega
  | succ rounds ih =>
      unfold firstFree
      simp only [Except.mapError, bind, Except.bind]
      rcases Nat.eq_or_lt_of_le least with rfl | later
      · rw [made]
        exact if_pos free
      · obtain ⟨other, listed, at_i⟩ := before i (Nat.le_refl i) later
        rw [at_i]
        simp only [if_neg (not_not.mpr listed)]
        exact ih later (by omega) fun earlier from_i => before earlier (Nat.le_of_succ_le from_i)

/-- The key of a device, of the length that keys have. -/
private def keyOf (i : Nat) : String :=
  String.ofList ((toString i).toList.leftpad 43 'A' ++ ['='])

private def addressOf (i : Nat) : String := (clientIp 2 (i + 1)).toOption.getD ""

private def deviceOf (i : Nat) : MeshClient :=
  ⟨toString i, "ada", "phone", 2, addressOf i, keyOf i, none, "manual", none⟩

private def enrolsOne (i : Nat) : Event :=
  .enroll 2 ⟨"ada", "phone", 2, none, none, none⟩ ⟨keyOf i, "private", toString i, ""⟩

private theorem keyOf_inj {i j : Nat} (same : keyOf i = keyOf j) : i = j := by
  have digits (number : Nat) :
      ((keyOf number).toList.filter Char.isDigit) = (toString number).toList := by
    have all : ∀ char ∈ (toString number).toList, char.isDigit = true := by
      intro char member
      by_contra other
      exact Numerals.notMem_toString (Bool.not_eq_true _ ▸ other) number member
    rw [keyOf, String.toList_ofList, List.leftpad, List.filter_append, List.filter_append,
      List.filter_eq_self.mpr all, List.filter_replicate]
    simp
  have equal := congrArg (fun key => key.toList.filter Char.isDigit) same
  simp only [digits] at equal
  exact Numerals.toString_inj.mp (String.toList_inj.mp equal)

private theorem addressOf_eq {i : Nat} (inside : i < MAX_CLIENT_INDEX) :
    clientIp 2 (i + 1) = .ok (addressOf i) := by
  have valid : 1 ≤ 2 ∧ 2 ≤ 254 := by decide
  obtain ⟨ip, made⟩ := clientIp_isOk valid ⟨Nat.le_add_left 1 i, inside⟩
  rw [addressOf, made]
  rfl

private theorem deviceOf_differ {i j : Nat} (inside : i < MAX_CLIENT_INDEX)
    (insideOther : j < MAX_CLIENT_INDEX) (different : i ≠ j) :
    Differ [MeshClient.id, MeshClient.assignedIp, MeshClient.publicKey] (deviceOf i)
      (deviceOf j) := by
  intro column listed same
  simp only [List.mem_cons, List.not_mem_nil, or_false] at listed
  apply different
  rcases listed with rfl | rfl | rfl
  · exact Numerals.toString_inj.mp same
  · have made := addressOf_eq inside
    have equal : addressOf i = addressOf j := same
    rw [equal] at made
    exact Nat.succ.inj (clientIp_inj made (addressOf_eq insideOther)).2
  · exact keyOf_inj same

private theorem enroll_deviceOf {n : Nat} {clients : Clients} (inside : n < MAX_CLIENT_INDEX)
    (rows : clients.rows = (List.range n).map deviceOf) :
    ∃ enrolled, Mesh.enroll ⟨"ada", "phone", 2, none, none, none⟩
        ⟨keyOf n, "private", toString n, ""⟩ clients = .ok enrolled ∧
      enrolled.clients.rows = (List.range (n + 1)).map deviceOf := by
  have fits : ∀ other ∈ clients.rows,
      Differ [MeshClient.id, MeshClient.assignedIp, MeshClient.publicKey] other (deviceOf n) := by
    intro other member
    rw [rows] at member
    obtain ⟨i, below, rfl⟩ := List.mem_map.mp member
    have earlier := List.mem_range.mp below
    exact deviceOf_differ (earlier.trans inside) inside (Nat.ne_of_lt earlier)
  have new : (clients.rows.find? fun client => client.publicKey == keyOf n).isSome = false := by
    rw [Option.isSome_eq_false_iff, Option.isNone_iff_eq_none, List.find?_eq_none]
    intro other member
    exact fun same => fits other member MeshClient.publicKey (by simp) (eq_of_beq same)
  have addresses : taken 2 clients.rows = (List.range n).map addressOf := by
    rw [taken, rows, List.filter_eq_self.mpr, List.map_map]
    · rfl
    · intro client member
      obtain ⟨i, -, rfl⟩ := List.mem_map.mp member
      rfl
  have found : nextFreeIp 2 clients.rows = .ok (addressOf n) := by
    have looked : firstFree 2 (taken 2 clients.rows) 1 MAX_CLIENT_INDEX = .ok (addressOf n) := by
      apply firstFree_of_free (addressOf_eq inside)
      · rw [addresses]
        intro member
        obtain ⟨i, below, same⟩ := List.mem_map.mp member
        have earlier := List.mem_range.mp below
        have differ := deviceOf_differ (earlier.trans inside) inside (Nat.ne_of_lt earlier)
        exact differ MeshClient.assignedIp (by simp) same
      · exact Nat.le_add_left 1 n
      · omega
      · intro earlier least below
        refine ⟨addressOf (earlier - 1), ?_, ?_⟩
        · rw [addresses]
          exact List.mem_map.mpr ⟨earlier - 1, List.mem_range.mpr (by omega), rfl⟩
        · have bound : earlier - 1 < MAX_CLIENT_INDEX := by omega
          have made := addressOf_eq bound
          rwa [Nat.sub_add_cancel least] at made
    exact looked
  obtain ⟨after, inserted⟩ := Option.isSome_iff_exists.mp (Table.insert_isSome.mpr fits)
  refine ⟨⟨deviceOf n, some "private", after⟩, ?_, ?_⟩
  · have keys : Enrolment.keys ⟨"ada", "phone", 2, none, none, none⟩
        ⟨keyOf n, "private", toString n, ""⟩ = .ok (keyOf n, some "private") := by rfl
    have made : (⟨toString n, "ada", "phone", 2, addressOf n, keyOf n, none,
        (truthy none).getD (if (some "private").isSome = true then "manual" else "agent"),
        truthy none⟩ : MeshClient) = deviceOf n := rfl
    simp only [Mesh.enroll, keys, bind, Except.bind, new, found, made, inserted]
    rfl
  · rw [Table.rows_insert inserted, rows, List.range_succ, List.map_append]
    rfl

/-- Enrolling one device after the other hands out the addresses of the pool in their order. -/
private theorem rows_enrolsOne {n : Nat} (inside : n ≤ MAX_CLIENT_INDEX) :
    ((Runs.run Event.apply ((List.range n).map enrolsOne) (start fun _ => .empty)).nodes
      2).clients.rows = (List.range n).map deviceOf := by
  induction n with
  | zero => rfl
  | succ n ih =>
      have before := ih (Nat.le_of_succ_le inside)
      rw [List.range_succ, List.map_append, Runs.run_append]
      obtain ⟨enrolled, done, rows⟩ := enroll_deviceOf inside before
      simp only [List.map_cons, List.map_nil, Runs.run, enrolsOne, Event.apply, done]
      rw [← List.range_succ, ← rows]
      rfl

/-- The device enrolled next when the addresses in front of the first shadow range are all
taken gets one inside it. -/
theorem not_planned_full :
    ¬ ∀ (grants : Nat → Grants) (events : List Event),
      ∀ step ∈ Runs.steps Event.apply events (start grants), ∀ node,
        Planned (step.after.nodes node).clients.rows := by
  intro always
  have initial : Planned ((start fun _ => .empty).nodes 2).clients.rows :=
    planned_of_placed fun _ member => by cases member
  have full := @Runs.run_of_forall_steps _ _ _ _ _
    (fun state : State => Planned (state.nodes 2).clients.rows) initial
    fun step member => always (fun _ => .empty) ((List.range 10161).map enrolsOne) step member 2
  rw [rows_enrolsOne (by decide)] at full
  have shadow : shadowCidr 2 168 = .ok "10.2.168.0/24" := by decide
  have member : deviceOf 10160 ∈ (List.range 10161).map deviceOf :=
    List.mem_map.mpr ⟨10160, List.mem_range.mpr (by decide), rfl⟩
  have inShadow : 2 = 2 ∧ 128 + (10161 - 1) / 254 = 168 := by decide
  exact full.shadows _ member 2 168 _ shadow
    ((lies_shadow_iff (addressOf_eq (by decide)) shadow).mpr inShadow)

end ThetaDirectory.Mesh

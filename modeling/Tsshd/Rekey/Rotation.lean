import Tsshd.Rekey.Machine
import Mathlib.Data.List.Infix
import Mathlib.Data.List.Nodup

/-!
# Key rotation never cuts the connection

The keys a side has installed form one sequence `K₀, K₁, …`: the client's is a
beginning of the server's (`Inv.pre`). With the server at `Kₚ … Kₙ`, the client
at `K_q … K_r`, the invariant is `q ≤ p ≤ r ≤ n`, and both lists have at most
two keys. What bounds them is the bus: a datagram sealed under `K_j` carries at
most `j + 1` bus messages (`Inv.toServer`, `Inv.toClient`), so the next request
or reply arrives only in a datagram that has promoted its receiver first.
-/

namespace Tsshd.Rekey

/-- The list is what was installed without what was dropped, and not empty. -/
def Crypto.Wf (r : Crypto) : Prop :=
  r.gcmList = r.installed.drop r.dropped ∧ r.dropped < r.installed.length

/-- The key was derived from server keys below `n`. -/
def Key.Below (n : Nat) : Key → Prop
  | .initial => True
  | .derived _ b => b < n

/-- What `handleServerRekey` has established. -/
def ServerInv (s : Sys) : ServerPc → Prop
  | .idle => True
  | .install a b =>
    s.requestsRead = s.server.installed.length ∧
      s.requests[s.server.installed.length - 1]? = some a ∧ b < s.fresh ∧
      ∀ k ∈ s.server.installed, k.Below b
  | .reply b =>
    s.server.installed.length = s.replies.length + 2 ∧
      ∃ a, s.requests[s.replies.length]? = some a ∧
        s.server.installed[s.replies.length + 1]? = some (.derived a b)

/-- What `handleClientRekey` has established. -/
def ClientInv (s : Sys) : ClientPc → Prop
  | .idle => True
  | .load b =>
    s.repliesRead = s.client.installed.length ∧
      s.replies[s.client.installed.length - 1]? = some b
  | .install a b =>
    s.repliesRead = s.client.installed.length ∧
      s.replies[s.client.installed.length - 1]? = some b ∧
      s.requests[s.client.installed.length - 1]? = some a
  | .forget a =>
    -- the key it may forget is not one that is still needed
    a < s.fresh ∧ (∀ x, DoRekey.send x ∈ s.doRekeys → x ≠ a) ∧
      (s.requests.length = s.client.installed.length → s.client.clientPriKey ≠ some a)

structure Inv (s : Sys) : Prop where
  clientWf : s.client.Wf
  serverWf : s.server.Wf
  clientActive : s.client.dropped + s.client.activeIdx + 1 = s.client.installed.length
  serverActive : s.server.activeIdx = 0
  /-- The client's keys are a beginning of the server's. -/
  pre : s.client.installed <+: s.server.installed
  nodup : s.server.installed.Nodup
  below : ∀ k ∈ s.server.installed, k.Below s.fresh
  clientDropped : s.client.dropped ≤ s.server.dropped
  serverDropped : s.server.dropped < s.client.installed.length
  /-- One rekey at a time: it is in a goroutine or on the bus. -/
  token : s.doRekeys.length + s.requests.length + 1 =
    s.client.installed.length + (if s.client.rekeyInFlight then 1 else 0)
  requestsArrived : s.requestsArrived ≤ s.server.dropped + 1 ∧
    s.requestsArrived ≤ s.requests.length
  requestsRead : s.requestsRead ≤ s.requestsArrived
  requestsInstalled : s.server.installed.length ≤ s.requestsRead + 1
  repliesArrived : s.repliesArrived ≤ s.client.dropped + 1 ∧
    s.repliesArrived ≤ s.replies.length
  repliesRead : s.repliesRead ≤ s.repliesArrived
  repliesInstalled : s.client.installed.length ≤ s.repliesRead + 1
  repliesWritten : s.replies.length + 1 ≤ s.server.installed.length
  /-- The server's keys are those of the exchanges on the bus. -/
  exchanged : ∀ i a b, s.requests[i]? = some a → s.replies[i]? = some b →
    s.server.installed[i + 1]? = some (.derived a b)
  /-- The private key of a rekey on its way is the stored one. -/
  outstanding : s.requests.length = s.client.installed.length →
    s.requests[s.client.installed.length - 1]? = s.client.clientPriKey
  sending : ∀ a, DoRekey.send a ∈ s.doRekeys → s.client.clientPriKey = some a ∧ a < s.fresh
  requestsFresh : ∀ a ∈ s.requests, a < s.fresh
  serverPc : ServerInv s s.serverPc
  clientPc : ClientInv s s.clientPc
  toServer : ∀ d ∈ s.toServer, d.carries ≤ s.requests.length ∧
    ∃ j, s.server.installed[j]? = some d.key ∧ j < s.client.installed.length ∧ d.carries ≤ j + 1
  toClient : ∀ d ∈ s.toClient, d.carries ≤ s.replies.length ∧
    ∃ j, s.server.installed[j]? = some d.key ∧ j ≤ s.server.dropped ∧ d.carries ≤ j + 1
  serverOpen : ∀ o ∈ s.serverOpen, o.datagram ∈ s.toServer ∧ o.gcmList <+: s.server.gcmList
  clientOpen : ∀ o ∈ s.clientOpen, o.datagram ∈ s.toClient ∧ o.gcmList <+: s.client.gcmList

/-! ## The record -/

/-- A list only grows at its end: what was found stays where it is. -/
theorem getElem?_grows {α : Type} {l m : List α} (h : l <+: m) {i : Nat} {x : α}
    (hi : l[i]? = some x) : m[i]? = some x := by
  obtain ⟨hlt, rfl⟩ := List.getElem?_eq_some_iff.mp hi
  exact List.prefix_iff_getElem?.mp h i hlt

section Record

variable {r : Crypto}

theorem Crypto.Wf.getElem? (h : r.Wf) (i : Nat) :
    r.gcmList[i]? = r.installed[r.dropped + i]? := by
  rw [h.1, List.getElem?_drop]

theorem Crypto.Wf.length (h : r.Wf) : r.gcmList.length = r.installed.length - r.dropped := by
  rw [h.1, List.length_drop]

theorem Crypto.Wf.installKey (h : r.Wf) (key : Key) (active : Bool) :
    (r.installKey key active).Wf := by
  refine ⟨?_, ?_⟩
  · show r.gcmList ++ [key] = (r.installed ++ [key]).drop r.dropped
    rw [List.drop_append_of_le_length (Nat.le_of_lt h.2), h.1]
  · show r.dropped < (r.installed ++ [key]).length
    rw [List.length_append]
    exact Nat.lt_add_right _ h.2

/-- A key found in an earlier state of the list is where it was. -/
theorem Crypto.Wf.openIdx (h : r.Wf) {old : List Key} (hold : old <+: r.gcmList) {key : Key}
    {idx : Nat} (hidx : openIdx old key = some idx) :
    r.installed[r.dropped + idx]? = some key := by
  obtain ⟨hlt, hkey, _⟩ := List.findIdx?_eq_some_iff_getElem.mp hidx
  rw [← h.getElem?]
  refine getElem?_grows hold ?_
  rw [List.getElem?_eq_getElem hlt, of_decide_eq_true hkey]

/-- Promoting a key that is in the list drops exactly the ones in front. -/
theorem Crypto.Wf.promoteKey (h : r.Wf) {idx : Nat} (hidx : r.dropped + idx < r.installed.length) :
    (r.promoteKey idx).Wf ∧ (r.promoteKey idx).dropped = r.dropped + idx ∧
      (r.promoteKey idx).activeIdx = 0 ∧ (r.promoteKey idx).installed = r.installed := by
  have hlen := h.length
  unfold Crypto.promoteKey
  rw [if_neg (by omega)]
  exact ⟨⟨by simp [h.1, List.drop_drop], hidx⟩, rfl, rfl, rfl⟩

end Record

/-! ## Sealing and opening -/

section Steps

variable {s s' : Sys}

theorem Inv.consumeClient (h : Inv s) (n : Nat) :
    Inv { s with client := s.client.consumeBytes n } := by
  unfold Crypto.consumeBytes
  split
  · exact h
  · exact { h with serverPc := h.serverPc, clientPc := h.clientPc }

theorem Inv.consumeServer (h : Inv s) (n : Nat) :
    Inv { s with server := s.server.consumeBytes n } := by
  unfold Crypto.consumeBytes
  split
  · exact h
  · exact { h with serverPc := h.serverPc, clientPc := h.clientPc }

/-- The client seals with its newest key. -/
theorem Inv.client_sealingKey (h : Inv s) :
    s.client.sealingKey = s.server.installed[s.client.installed.length - 1]? := by
  have hact := h.clientActive
  have hi : s.client.installed.length - 1 < s.client.installed.length := by omega
  rw [Crypto.sealingKey, h.clientWf.getElem?,
    show s.client.dropped + s.client.activeIdx = s.client.installed.length - 1 by omega,
    List.getElem?_eq_getElem hi]
  exact (getElem?_grows h.pre (List.getElem?_eq_getElem hi)).symm

/-- The server seals with its oldest key. -/
theorem Inv.server_sealingKey (h : Inv s) :
    s.server.sealingKey = s.server.installed[s.server.dropped]? := by
  rw [Crypto.sealingKey, h.serverWf.getElem?, h.serverActive, Nat.add_zero]

/-- A key that opened is the one at the datagram's own position. -/
theorem Inv.position (h : Inv s) {i j : Nat} {key : Key} (hi : s.server.installed[i]? = some key)
    (hj : s.server.installed[j]? = some key) : i = j := by
  obtain ⟨hlt, _⟩ := List.getElem?_eq_some_iff.mp hi
  exact (List.getElem?_inj hlt h.nodup).mp (hi.trans hj.symm)

theorem Inv.clientSeal (h : Inv s) {key : Key} {carries : Nat}
    (hkey : s.client.sealingKey = some key) (hcarries : carries ≤ s.requests.length) :
    Inv { s with toServer := s.toServer ++ [⟨key, carries⟩] } := by
  have htoken := h.token
  have hle : s.requests.length ≤ s.client.installed.length := by
    split at htoken <;> omega
  have hpos := h.serverDropped
  refine { h with
    serverPc := h.serverPc, clientPc := h.clientPc, toServer := fun d hd => ?_,
    serverOpen := fun o ho => ?_ }
  · rcases List.mem_append.mp hd with hd | hd
    · exact h.toServer d hd
    · rw [List.mem_singleton.mp hd]
      exact ⟨hcarries, s.client.installed.length - 1, h.client_sealingKey ▸ hkey,
        by dsimp only; omega, by dsimp only; omega⟩
  · exact ⟨List.mem_append_left _ (h.serverOpen o ho).1, (h.serverOpen o ho).2⟩

/-- The server has at most one key above the one it seals with. -/
theorem Inv.server_window (h : Inv s) : s.server.installed.length ≤ s.server.dropped + 2 := by
  have h1 := h.requestsInstalled
  have h2 := h.requestsRead
  have h3 := h.requestsArrived
  omega

/-- And so has the client. -/
theorem Inv.client_window (h : Inv s) : s.client.installed.length ≤ s.client.dropped + 2 := by
  have h1 := h.repliesInstalled
  have h2 := h.repliesRead
  have h3 := h.repliesArrived
  omega

theorem Inv.serverSeal (h : Inv s) {key : Key} {carries : Nat}
    (hkey : s.server.sealingKey = some key) (hcarries : carries ≤ s.replies.length) :
    Inv { s with toClient := s.toClient ++ [⟨key, carries⟩] } := by
  have hwindow := h.server_window
  have hwritten := h.repliesWritten
  refine { h with
    serverPc := h.serverPc, clientPc := h.clientPc, toClient := fun d hd => ?_,
    clientOpen := fun o ho => ?_ }
  · rcases List.mem_append.mp hd with hd | hd
    · exact h.toClient d hd
    · rw [List.mem_singleton.mp hd]
      exact ⟨hcarries, s.server.dropped, h.server_sealingKey ▸ hkey, Nat.le_refl _,
        by dsimp only; omega⟩
  · exact ⟨List.mem_append_left _ (h.clientOpen o ho).1, (h.clientOpen o ho).2⟩

/-- The server moves to the key of a datagram of the client. -/
theorem Inv.serverOpened (h : Inv s) {o : Opening} (ho : s.serverOpen = some o) {idx : Nat}
    (hidx : openIdx o.gcmList o.datagram.key = some idx) (bytes : Nat) :
    Inv { s with
      server := s.server.opened idx bytes
      requestsArrived := max s.requestsArrived o.datagram.carries
      serverOpen := none } := by
  obtain ⟨hmem, hsnap⟩ := h.serverOpen o ho
  obtain ⟨hcarries, j, hj, hjlt, hcj⟩ := h.toServer _ hmem
  have hkey := h.serverWf.openIdx hsnap hidx
  have hpos : s.server.dropped + idx = j := h.position hkey hj
  have hlen := (List.getElem?_eq_some_iff.mp hkey).1
  have harr := h.requestsArrived
  have hread := h.requestsRead
  by_cases hz : idx = 0
  · subst hz
    have hc : Inv { s with
        requestsArrived := max s.requestsArrived o.datagram.carries, serverOpen := none } :=
      { h with
        serverPc := h.serverPc, clientPc := h.clientPc
        requestsArrived := ⟨by dsimp only; omega, by dsimp only; omega⟩
        requestsRead := by dsimp only; omega
        serverOpen := by simp }
    exact hc.consumeServer bytes
  · obtain ⟨hwf, hdropped, hactive, hinst⟩ := h.serverWf.promoteKey hlen
    have hopened : s.server.opened idx bytes = s.server.promoteKey idx := by
      rw [Crypto.opened, if_pos (by omega)]
    have hcd := h.clientDropped
    rw [hopened]
    exact { h with
      serverWf := hwf
      serverActive := hactive
      pre := by rw [hinst]; exact h.pre
      nodup := by rw [hinst]; exact h.nodup
      below := by rw [hinst]; exact h.below
      clientDropped := by rw [hdropped]; dsimp only; omega
      serverDropped := by rw [hdropped]; dsimp only; omega
      requestsArrived := by rw [hdropped]; exact ⟨by dsimp only; omega, by dsimp only; omega⟩
      requestsRead := by dsimp only; omega
      requestsInstalled := by rw [hinst]; exact h.requestsInstalled
      repliesWritten := by rw [hinst]; exact h.repliesWritten
      exchanged := by rw [hinst]; exact h.exchanged
      serverPc := by
        have := h.serverPc
        simp only [ServerInv, hinst] at this ⊢
        exact this
      clientPc := h.clientPc
      toServer := by rw [hinst]; exact h.toServer
      toClient := fun d hd => by
        obtain ⟨hc, i, hi, hile, hci⟩ := h.toClient d hd
        rw [hinst, hdropped]
        exact ⟨hc, i, hi, Nat.le_trans hile (Nat.le_add_right _ _), hci⟩
      serverOpen := by simp }

/-- The client moves to the key of a datagram of the server, its newest. -/
theorem Inv.clientOpened (h : Inv s) {o : Opening} (ho : s.clientOpen = some o) {idx : Nat}
    (hidx : openIdx o.gcmList o.datagram.key = some idx) (bytes : Nat) :
    Inv { s with
      client := s.client.opened idx bytes
      repliesArrived := max s.repliesArrived o.datagram.carries
      clientOpen := none } := by
  obtain ⟨hmem, hsnap⟩ := h.clientOpen o ho
  obtain ⟨hcarries, j, hj, hjle, hcj⟩ := h.toClient _ hmem
  have hkey := h.clientWf.openIdx hsnap hidx
  have hpos : s.client.dropped + idx = j := h.position (getElem?_grows h.pre hkey) hj
  have hlen := (List.getElem?_eq_some_iff.mp hkey).1
  have harr := h.repliesArrived
  have hread := h.repliesRead
  by_cases hz : idx = 0
  · subst hz
    have hc : Inv { s with
        repliesArrived := max s.repliesArrived o.datagram.carries, clientOpen := none } :=
      { h with
        serverPc := h.serverPc, clientPc := h.clientPc
        repliesArrived := ⟨by dsimp only; omega, by dsimp only; omega⟩
        repliesRead := by dsimp only; omega
        clientOpen := by simp }
    exact hc.consumeClient bytes
  · obtain ⟨hwf, hdropped, hactive, hinst⟩ := h.clientWf.promoteKey hlen
    have hopened : s.client.opened idx bytes = s.client.promoteKey idx := by
      rw [Crypto.opened, if_pos (by omega)]
    have hflags : (s.client.promoteKey idx).rekeyInFlight = s.client.rekeyInFlight ∧
        (s.client.promoteKey idx).clientPriKey = s.client.clientPriKey := by
      unfold Crypto.promoteKey
      split <;> exact ⟨rfl, rfl⟩
    have hwindow := h.client_window
    rw [hopened]
    exact { h with
      clientWf := hwf
      -- two keys at most, so the promoted one is the newest
      clientActive := by rw [hdropped, hactive, hinst]; omega
      pre := by rw [hinst]; exact h.pre
      clientDropped := by rw [hdropped]; dsimp only; omega
      serverDropped := by rw [hinst]; exact h.serverDropped
      token := by rw [hinst, hflags.1]; exact h.token
      repliesArrived := by rw [hdropped]; exact ⟨by dsimp only; omega, by dsimp only; omega⟩
      repliesRead := by dsimp only; omega
      repliesInstalled := by rw [hinst]; exact h.repliesInstalled
      outstanding := by rw [hinst, hflags.2]; exact h.outstanding
      sending := by rw [hflags.2]; exact h.sending
      serverPc := h.serverPc
      clientPc := by
        have := h.clientPc
        simp only [ClientInv, hinst, hflags.2] at this ⊢
        exact this
      toServer := by rw [hinst]; exact h.toServer
      clientOpen := by simp }

/-! ## Rekeying -/

theorem Inv.startRekey (h : Inv s) {since : Nat} (hallowed : s.client.rekeyAllowed since = true) :
    Inv { s with
      client := { s.client with rekeyInFlight := true }
      doRekeys := s.doRekeys ++ [.generate] } := by
  have hfree : s.client.rekeyInFlight = false := by
    simp only [Crypto.rekeyAllowed, Bool.and_eq_true, Bool.not_eq_true'] at hallowed
    exact hallowed.1.2
  have htoken := h.token
  have hsend : ∀ a, DoRekey.send a ∈ s.doRekeys ++ [.generate] → DoRekey.send a ∈ s.doRekeys := by
    intro a ha
    simpa using ha
  refine { h with
    token := ?_, sending := fun a ha => h.sending a (hsend a ha), serverPc := h.serverPc,
    clientPc := ?_ }
  · simp only [hfree, Bool.false_eq_true, if_false] at htoken
    simp only [List.length_append, List.length_singleton, if_true]
    omega
  · have hpc := h.clientPc
    cases hc : s.clientPc with
    | forget a =>
      rw [hc] at hpc
      exact ⟨hpc.1, fun x hx => hpc.2.1 x (hsend x hx), hpc.2.2⟩
    | _ =>
      rw [hc] at hpc
      exact hpc

/-- No reply arrives before its request was sent. -/
theorem Inv.repliesArrived_le (h : Inv s) : s.repliesArrived ≤ s.requests.length := by
  have harrived := h.repliesArrived
  have hwritten := h.repliesWritten
  have hinstalled := h.requestsInstalled
  have hread := h.requestsRead
  have hrequests := h.requestsArrived
  omega

/-- A rekey in a goroutine is the only one. -/
theorem Inv.only_goroutine (h : Inv s) {k : Nat} {g : DoRekey} (hg : s.doRekeys[k]? = some g) :
    s.doRekeys = [g] ∧ k = 0 ∧ s.client.rekeyInFlight = true ∧
      s.requests.length + 1 = s.client.installed.length := by
  have htoken := h.token
  obtain ⟨hk, hget⟩ := List.getElem?_eq_some_iff.mp hg
  have hread := h.repliesInstalled
  have hchain : s.client.installed.length ≤ s.requests.length + 1 := by
    have hreplies := h.repliesRead
    have harrived := h.repliesArrived_le
    omega
  cases hf : s.client.rekeyInFlight with
  | false =>
    simp only [hf, Bool.false_eq_true, if_false] at htoken
    omega
  | true =>
    simp only [hf, if_true] at htoken
    have hlen : s.doRekeys.length = 1 := by omega
    obtain ⟨x, hx⟩ := List.length_eq_one_iff.mp hlen
    have hk0 : k = 0 := by omega
    subst hk0
    rw [hx] at hg ⊢
    simp only [List.getElem?_cons_zero, Option.some.injEq] at hg
    exact ⟨by rw [hg], rfl, rfl, by omega⟩

/-- A new private key is stored while no rekey is on the bus. -/
theorem Inv.generate (h : Inv s) (hlist : s.doRekeys = [.generate])
    (hlen : s.requests.length + 1 = s.client.installed.length) :
    Inv { s with
      client := { s.client with clientPriKey := some s.fresh }
      fresh := s.fresh + 1
      doRekeys := [.send s.fresh] } := by
  have hnone : s.requests.length ≠ s.client.installed.length := by omega
  have hpc := h.clientPc
  refine { h with
    below := fun k hk => ?_, token := by simpa [hlist] using h.token,
    outstanding := fun heq => absurd heq hnone, sending := fun a ha => ?_,
    requestsFresh := fun a ha => Nat.lt_succ_of_lt (h.requestsFresh a ha),
    serverPc := ?_, clientPc := ?_ }
  · have := h.below k hk
    cases k with
    | initial => trivial
    | derived a b => exact Nat.lt_succ_of_lt this
  · simp only [List.mem_singleton, DoRekey.send.injEq] at ha
    rw [ha]
    exact ⟨rfl, Nat.lt_succ_self _⟩
  · have hv := h.serverPc
    cases hs : s.serverPc with
    | install a b =>
      rw [hs] at hv
      exact ⟨hv.1, hv.2.1, Nat.lt_succ_of_lt hv.2.2.1, hv.2.2.2⟩
    | _ =>
      rw [hs] at hv
      exact hv
  · cases hc : s.clientPc with
    | forget a =>
      rw [hc] at hpc
      refine ⟨Nat.lt_succ_of_lt hpc.1, fun x hx => ?_, fun heq => absurd heq hnone⟩
      simp only [List.mem_singleton, DoRekey.send.injEq] at hx
      rw [hx]
      exact Nat.ne_of_gt hpc.1
    | _ =>
      rw [hc] at hpc
      exact hpc

/-- The only goroutine is replaced by one that sends nothing, or ends. -/
theorem Inv.goroutine (h : Inv s) (gs : List DoRekey) (inFlight : Bool)
    (hsend : ∀ a, DoRekey.send a ∉ gs)
    (htoken : gs.length + s.requests.length + 1 =
      s.client.installed.length + (if inFlight then 1 else 0)) :
    Inv { s with client := { s.client with rekeyInFlight := inFlight }, doRekeys := gs } := by
  refine { h with
    token := htoken, sending := fun a ha => absurd ha (hsend a), serverPc := h.serverPc,
    clientPc := ?_ }
  have hpc := h.clientPc
  cases hc : s.clientPc with
  | forget a =>
    rw [hc] at hpc
    exact ⟨hpc.1, fun x hx => absurd hx (hsend x), hpc.2.2⟩
  | _ =>
    rw [hc] at hpc
    exact hpc

/-- The request goes to the bus. -/
theorem Inv.sendRequest (h : Inv s) {a : Nat} (hlist : s.doRekeys = [.send a])
    (hlen : s.requests.length + 1 = s.client.installed.length) :
    Inv { s with requests := s.requests ++ [a], doRekeys := [] } := by
  obtain ⟨hpri, hfresh⟩ := h.sending a (by simp [hlist])
  have hgrow : ∀ {i x}, s.requests[i]? = some x → (s.requests ++ [a])[i]? = some x :=
    fun hx => getElem?_grows (List.prefix_append _ _) hx
  have hlast : (s.requests ++ [a])[s.client.installed.length - 1]? = some a := by
    rw [← hlen, Nat.add_sub_cancel]
    exact List.getElem?_concat_length
  have hwritten : s.replies.length ≤ s.requests.length := by
    have h1 := h.repliesWritten
    have h2 := h.requestsInstalled
    have h3 := h.requestsRead
    have h4 := h.requestsArrived
    omega
  refine { h with
    token := ?_, requestsArrived := ⟨h.requestsArrived.1, ?_⟩, exchanged := ?_,
    outstanding := fun _ => hlast.trans hpri.symm, sending := by simp, requestsFresh := ?_,
    serverPc := ?_, clientPc := ?_, toServer := ?_ }
  · have := h.token
    simp only [hlist, List.length_singleton] at this
    simp only [List.length_append, List.length_singleton, List.length_nil]
    omega
  · exact Nat.le_trans h.requestsArrived.2 (by simp)
  · intro i x b hx hb
    have hi : i < s.replies.length := (List.getElem?_eq_some_iff.mp hb).1
    rw [List.getElem?_append_left (by omega)] at hx
    exact h.exchanged i x b hx hb
  · intro x hx
    rcases List.mem_append.mp hx with hx | hx
    · exact h.requestsFresh x hx
    · rw [List.mem_singleton.mp hx]
      exact hfresh
  · have hv := h.serverPc
    cases hs : s.serverPc with
    | idle => trivial
    | install x b =>
      rw [hs] at hv
      exact ⟨hv.1, hgrow hv.2.1, hv.2.2⟩
    | reply b =>
      rw [hs] at hv
      obtain ⟨hl, x, hx, hk⟩ := hv
      exact ⟨hl, x, hgrow hx, hk⟩
  · have hpc := h.clientPc
    cases hc : s.clientPc with
    | idle => trivial
    | load b =>
      rw [hc] at hpc
      exact hpc
    | install x b =>
      rw [hc] at hpc
      exact ⟨hpc.1, hpc.2.1, hgrow hpc.2.2⟩
    | forget x =>
      rw [hc] at hpc
      refine ⟨hpc.1, by simp, fun _ heq => ?_⟩
      rw [hpri] at heq
      exact hpc.2.1 a (by simp [hlist]) (Option.some.inj heq)
  · intro d hd
    obtain ⟨hcar, j, hj⟩ := h.toServer d hd
    exact ⟨Nat.le_trans hcar (by simp), j, hj⟩

theorem Inv.doRekey {k : Nat} {ok : Bool} (h : Inv s) (hstep : doRekeyStep k ok s = some s') :
    Inv s' := by
  obtain ⟨⟨c, sent⟩, hside, rfl⟩ := Option.map_eq_some_iff.mp hstep
  unfold ClientSide.doRekey at hside
  cases hg : s.doRekeys[k]? with
  | none => simp [hg] at hside
  | some g =>
    obtain ⟨hlist, rfl, hflight, hlen⟩ := h.only_goroutine hg
    simp only [hg] at hside
    have hfails : Inv { s with doRekeys := [.failed] } := by
      have := h.goroutine [.failed] true (by simp)
        (by simp only [List.length_singleton, if_true]; omega)
      rwa [← hflight] at this
    cases g with
    | generate =>
      cases ok <;> cases hside <;> simp only [hlist, Option.toList_none, List.append_nil]
      · exact hfails
      · exact h.generate hlist hlen
    | send a =>
      cases ok <;> cases hside
      · simp only [hlist, Option.toList_none, List.append_nil]
        exact hfails
      · simp only [hlist]
        exact h.sendRequest hlist hlen
    | failed =>
      cases hside
      simp only [hlist, Option.toList_none, List.append_nil]
      refine h.goroutine _ _ (by simp) ?_
      simp only [List.eraseIdx_cons_zero, List.length_nil, Bool.false_eq_true, if_false]
      omega

/-- No more requests than keys of the client. -/
theorem Inv.requests_le (h : Inv s) : s.requests.length ≤ s.client.installed.length := by
  have htoken := h.token
  split at htoken <;> omega

theorem Inv.serverRead (h : Inv s) {a : Nat} (ok : Bool)
    (hread : s.requestsRead < s.requestsArrived) (ha : s.requests[s.requestsRead]? = some a) :
    Inv { s with
      requestsRead := s.requestsRead + 1
      serverPc := if ok then .install a s.fresh else .idle
      fresh := s.fresh + 1 } := by
  have harr := h.requestsArrived
  have hle := h.requests_le
  have hpre := h.pre.length_le
  have hinst := h.requestsInstalled
  -- the request is the one behind the last key
  have hlen : s.server.installed.length = s.requestsRead + 1 := by omega
  refine { h with
    below := fun k hk => ?_, requestsRead := by dsimp only; omega,
    requestsInstalled := by dsimp only; omega,
    sending := fun x hx => ⟨(h.sending x hx).1, Nat.lt_succ_of_lt (h.sending x hx).2⟩,
    requestsFresh := fun x hx => Nat.lt_succ_of_lt (h.requestsFresh x hx),
    serverPc := ?_, clientPc := ?_ }
  · have := h.below k hk
    cases k with
    | initial => trivial
    | derived x b => exact Nat.lt_succ_of_lt this
  · cases ok with
    | true =>
      refine ⟨hlen.symm, ?_, Nat.lt_succ_self _, h.below⟩
      show s.requests[s.server.installed.length - 1]? = some a
      rw [hlen, Nat.add_sub_cancel]
      exact ha
    | false => trivial
  · have hpc := h.clientPc
    cases hc : s.clientPc with
    | forget x =>
      rw [hc] at hpc
      exact ⟨Nat.lt_succ_of_lt hpc.1, hpc.2⟩
    | _ =>
      rw [hc] at hpc
      exact hpc

/-- The server installs the key of the request it handles, inactive. -/
theorem Inv.serverInstall (h : Inv s) {a b : Nat} (hpc : s.serverPc = .install a b) :
    Inv { s with server := s.server.installKey (.derived a b) false, serverPc := .reply b } := by
  have hv := h.serverPc
  rw [hpc] at hv
  obtain ⟨hread, ha, hb, hbelow⟩ := hv
  have hlen : s.server.installed.length = s.replies.length + 1 := by
    have h1 := h.repliesWritten
    have h2 := h.requests_le
    have h3 := h.requestsArrived
    have h4 := h.requestsRead
    have h5 := h.repliesInstalled
    have h6 := h.repliesRead
    have h7 := h.repliesArrived
    omega
  have hgrow : ∀ {i x}, s.server.installed[i]? = some x →
      (s.server.installed ++ [Key.derived a b])[i]? = some x :=
    fun hx => getElem?_grows (List.prefix_append _ _) hx
  have hnew : Key.derived a b ∉ s.server.installed := fun hmem =>
    absurd (hbelow _ hmem) (Nat.lt_irrefl b)
  refine { h with
    serverWf := h.serverWf.installKey _ _, serverActive := h.serverActive,
    pre := h.pre.trans (List.prefix_append _ _), nodup := ?_, below := fun k hk => ?_,
    requestsInstalled := ?_, repliesWritten := ?_,
    exchanged := fun i x y hx hy => hgrow (h.exchanged i x y hx hy), serverPc := ?_,
    clientPc := h.clientPc, toServer := fun d hd => ?_, toClient := fun d hd => ?_,
    serverOpen := fun o ho => ?_ }
  · exact List.nodup_append.mpr ⟨h.nodup, by simp, fun x hx y hy heq =>
      hnew (List.mem_singleton.mp hy ▸ heq ▸ hx)⟩
  · rcases List.mem_append.mp hk with hk | hk
    · exact h.below k hk
    · rw [List.mem_singleton.mp hk]
      exact hb
  · show (s.server.installed ++ [Key.derived a b]).length ≤ s.requestsRead + 1
    rw [List.length_append, List.length_singleton]
    omega
  · show s.replies.length + 1 ≤ (s.server.installed ++ [Key.derived a b]).length
    rw [List.length_append]
    omega
  · refine ⟨?_, a, ?_, ?_⟩
    · show (s.server.installed ++ [Key.derived a b]).length = s.replies.length + 2
      rw [List.length_append, List.length_singleton, hlen]
    · rw [hlen, Nat.add_sub_cancel] at ha
      exact ha
    · show (s.server.installed ++ [Key.derived a b])[s.replies.length + 1]? = _
      rw [← hlen]
      exact List.getElem?_concat_length
  · obtain ⟨hc, j, hj, hjle, hcj⟩ := h.toServer d hd
    exact ⟨hc, j, hgrow hj, hjle, hcj⟩
  · obtain ⟨hc, j, hj, hjle, hcj⟩ := h.toClient d hd
    exact ⟨hc, j, hgrow hj, hjle, hcj⟩
  · exact ⟨(h.serverOpen o ho).1, (h.serverOpen o ho).2.trans (List.prefix_append _ _)⟩

/-- The server's half of the exchange goes to the bus. -/
theorem Inv.serverReply (h : Inv s) {b : Nat} (hpc : s.serverPc = .reply b) :
    Inv { s with replies := s.replies ++ [b], serverPc := .idle } := by
  have hv := h.serverPc
  rw [hpc] at hv
  obtain ⟨hlen, a, ha, hkey⟩ := hv
  have hgrow : ∀ {i x}, s.replies[i]? = some x → (s.replies ++ [b])[i]? = some x :=
    fun hx => getElem?_grows (List.prefix_append _ _) hx
  refine { h with
    repliesArrived := ⟨h.repliesArrived.1, Nat.le_trans h.repliesArrived.2 (by simp)⟩,
    repliesWritten := ?_, exchanged := ?_, serverPc := trivial, clientPc := ?_,
    toClient := fun d hd => ?_ }
  · show (s.replies ++ [b]).length + 1 ≤ s.server.installed.length
    rw [List.length_append, List.length_singleton]
    omega
  · intro i x y hx hy
    rcases Nat.lt_or_ge i s.replies.length with hi | hi
    · rw [List.getElem?_append_left hi] at hy
      exact h.exchanged i x y hx hy
    · have hlt := (List.getElem?_eq_some_iff.mp hy).1
      simp only [List.length_append, List.length_singleton] at hlt
      obtain rfl : i = s.replies.length := by omega
      rw [List.getElem?_concat_length, Option.some.injEq] at hy
      rw [ha, Option.some.injEq] at hx
      rw [← hx, ← hy]
      exact hkey
  · have hc := h.clientPc
    cases hcp : s.clientPc with
    | idle => trivial
    | load y =>
      rw [hcp] at hc
      exact ⟨hc.1, hgrow hc.2⟩
    | install x y =>
      rw [hcp] at hc
      exact ⟨hc.1, hgrow hc.2.1, hc.2.2⟩
    | forget x =>
      rw [hcp] at hc
      exact hc
  · obtain ⟨hc, hj⟩ := h.toClient d hd
    exact ⟨Nat.le_trans hc (by simp), hj⟩

theorem Inv.clientRead (h : Inv s) {b : Nat} (ok : Bool)
    (hread : s.repliesRead < s.repliesArrived) (hb : s.replies[s.repliesRead]? = some b) :
    Inv { s with
      repliesRead := s.repliesRead + 1, clientPc := if ok then .load b else .idle } := by
  have hlen : s.client.installed.length = s.repliesRead + 1 := by
    have hinstalled := h.repliesInstalled
    have harrived := h.repliesArrived_le
    have hle := h.requests_le
    omega
  refine { h with
    repliesRead := by dsimp only; omega, repliesInstalled := by dsimp only; omega,
    serverPc := h.serverPc, clientPc := ?_ }
  cases ok with
  | true =>
    refine ⟨hlen.symm, ?_⟩
    show s.replies[s.client.installed.length - 1]? = some b
    rw [hlen, Nat.add_sub_cancel]
    exact hb
  | false => trivial

/-- While a reply is handled its request is the outstanding one. -/
theorem Inv.requests_eq (h : Inv s) (hread : s.repliesRead = s.client.installed.length) :
    s.requests.length = s.client.installed.length := by
  have hreplies := h.repliesRead
  have harrived := h.repliesArrived_le
  have hle := h.requests_le
  omega

/-- The client installs the key of the reply it handles and seals with it. -/
theorem Inv.clientInstall (h : Inv s) {a b : Nat} (hpc : s.clientPc = .install a b) :
    Inv { s with client := s.client.installKey (.derived a b) true, clientPc := .forget a } := by
  have hc := h.clientPc
  rw [hpc] at hc
  obtain ⟨hread, hb, ha⟩ := hc
  have hreq := h.requests_eq hread
  have hpos := h.serverDropped
  have htoken := h.token
  have hgone : s.doRekeys = [] := by
    refine List.length_eq_zero_iff.mp ?_
    split at htoken <;> omega
  have hkey : s.server.installed[s.client.installed.length]? = some (.derived a b) := by
    have := h.exchanged _ a b ha hb
    rwa [Nat.sub_add_cancel (by omega)] at this
  have hlen : (s.client.installed ++ [Key.derived a b]).length =
      s.client.installed.length + 1 := by simp
  have hwlen := h.clientWf.length
  have hdrop := h.clientWf.2
  refine { h with
    clientWf := h.clientWf.installKey _ _, clientActive := ?_, pre := ?_,
    serverDropped := ?_, token := ?_, repliesInstalled := ?_, outstanding := ?_,
    sending := by simp [hgone], serverPc := h.serverPc, clientPc := ?_,
    toServer := fun d hd => ?_, clientOpen := fun o ho => ?_ }
  · show s.client.dropped + s.client.gcmList.length + 1 = _
    rw [hwlen]
    show _ = (s.client.installed ++ [Key.derived a b]).length
    omega
  · -- the prefix grows by the server's next key
    obtain ⟨t, ht⟩ := h.pre
    rw [← ht, List.getElem?_append_right (Nat.le_refl _), Nat.sub_self] at hkey
    cases t with
    | nil => simp at hkey
    | cons k t =>
      simp only [List.getElem?_cons_zero, Option.some.injEq] at hkey
      exact ⟨t, by rw [← ht, ← hkey]; simp [Crypto.installKey]⟩
  · show s.server.dropped < (s.client.installed ++ [Key.derived a b]).length
    omega
  · show s.doRekeys.length + s.requests.length + 1 =
      (s.client.installed ++ [Key.derived a b]).length + 0
    rw [hgone, hlen, List.length_nil]
    omega
  · show (s.client.installed ++ [Key.derived a b]).length ≤ s.repliesRead + 1
    omega
  · intro heq
    have : s.requests.length = (s.client.installed ++ [Key.derived a b]).length := heq
    omega
  · refine ⟨h.requestsFresh a (List.mem_of_getElem? ha), by simp [hgone], fun heq => ?_⟩
    have : s.requests.length = (s.client.installed ++ [Key.derived a b]).length := heq
    omega
  · obtain ⟨hcar, j, hj, hjlt, hcj⟩ := h.toServer d hd
    refine ⟨hcar, j, hj, ?_, hcj⟩
    show j < (s.client.installed ++ [Key.derived a b]).length
    omega
  · exact ⟨(h.clientOpen o ho).1, (h.clientOpen o ho).2.trans (List.prefix_append _ _)⟩

/-- The client forgets a private key that is no longer needed. -/
theorem Inv.clientForget (h : Inv s) {a : Nat} (hpc : s.clientPc = .forget a) :
    Inv { s with
      client := if s.client.clientPriKey = some a then { s.client with clientPriKey := none }
        else s.client
      clientPc := .idle } := by
  have hc := h.clientPc
  rw [hpc] at hc
  split
  · rename_i heq
    exact { h with
      outstanding := fun hlen => absurd heq (hc.2.2 hlen)
      sending := fun x hx =>
        absurd (Option.some.inj ((h.sending x hx).1.symm.trans heq)) (hc.2.1 x hx)
      serverPc := h.serverPc, clientPc := trivial }
  · exact { h with serverPc := h.serverPc, clientPc := trivial }

theorem Inv.clientRekey (h : Inv s) (hstep : clientRekeyStep s = some s') : Inv s' := by
  obtain ⟨c, hside, rfl⟩ := Option.map_eq_some_iff.mp hstep
  unfold ClientSide.handleClientRekey at hside
  have hc := h.clientPc
  cases hpc : s.clientPc with
  | idle => simp [hpc] at hside
  | load b =>
    rw [hpc] at hc
    simp only [hpc] at hside
    split at hside <;> cases hside
    · rename_i a hpri
      refine { h with serverPc := h.serverPc, clientPc := ⟨hc.1, hc.2, ?_⟩ }
      exact (h.outstanding (h.requests_eq hc.1)).trans hpri
    · exact { h with serverPc := h.serverPc, clientPc := trivial }
  | install a b =>
    simp only [hpc, if_true, Option.some.injEq] at hside
    subst hside
    exact h.clientInstall hpc
  | forget a =>
    simp only [hpc, Option.some.injEq] at hside
    subst hside
    exact h.clientForget hpc

theorem Inv.serverRekey {ok : Bool} (h : Inv s) (hstep : serverRekeyStep ok s = some s') :
    Inv s' := by
  unfold serverRekeyStep at hstep
  cases hpc : s.serverPc with
  | idle => simp [hpc] at hstep
  | install a b =>
    simp only [hpc, Option.some.injEq] at hstep
    subst hstep
    exact h.serverInstall hpc
  | reply b =>
    simp only [hpc, Option.some.injEq] at hstep
    subst hstep
    cases ok with
    | true => exact h.serverReply hpc
    | false => exact { h with serverPc := trivial, clientPc := h.clientPc }

theorem Inv.next {a : Act} (h : Inv s) (hstep : next s a = some s') : Inv s' := by
  cases a with
  | clientSeal carries bytes =>
    simp only [Rekey.next] at hstep
    split at hstep
    · rename_i key hkey
      split at hstep <;> cases hstep
      exact (h.clientSeal hkey ‹_›).consumeClient bytes
    · exact absurd hstep (by simp)
  | serverSeal carries bytes =>
    simp only [Rekey.next] at hstep
    split at hstep
    · rename_i key hkey
      split at hstep <;> cases hstep
      exact (h.serverSeal hkey ‹_›).consumeServer bytes
    · exact absurd hstep (by simp)
  | serverOpen i =>
    simp only [Rekey.next] at hstep
    split at hstep <;> cases hstep
    rename_i d _ hd
    refine { h with serverPc := h.serverPc, clientPc := h.clientPc, serverOpen := fun o ho => ?_ }
    cases ho
    exact ⟨List.mem_of_getElem? hd, List.prefix_refl _⟩
  | serverOpened bytes =>
    simp only [Rekey.next] at hstep
    split at hstep
    · exact absurd hstep (by simp)
    · rename_i o ho
      split at hstep <;> cases hstep
      · exact { h with serverPc := h.serverPc, clientPc := h.clientPc, serverOpen := by simp }
      · exact h.serverOpened ho ‹_› bytes
  | clientOpen i =>
    simp only [Rekey.next] at hstep
    split at hstep <;> cases hstep
    rename_i d _ hd
    refine { h with serverPc := h.serverPc, clientPc := h.clientPc, clientOpen := fun o ho => ?_ }
    cases ho
    exact ⟨List.mem_of_getElem? hd, List.prefix_refl _⟩
  | clientOpened bytes =>
    simp only [Rekey.next] at hstep
    split at hstep
    · exact absurd hstep (by simp)
    · rename_i o ho
      split at hstep <;> cases hstep
      · exact { h with serverPc := h.serverPc, clientPc := h.clientPc, clientOpen := by simp }
      · exact h.clientOpened ho ‹_› bytes
  | startRekey since =>
    cases hstep
    unfold ClientSide.startRekey
    split
    · exact h.startRekey ‹_›
    · exact h
  | doRekey k ok => exact h.doRekey hstep
  | serverRead ok =>
    simp only [Rekey.next] at hstep
    split at hstep
    · rename_i hcond
      split at hstep <;> cases hstep
      exact h.serverRead ok hcond.2 ‹_›
    · exact absurd hstep (by simp)
  | serverRekey ok => exact h.serverRekey hstep
  | clientRead ok =>
    simp only [Rekey.next] at hstep
    split at hstep
    · rename_i hcond
      split at hstep <;> cases hstep
      exact h.clientRead ok hcond.2 ‹_›
    · exact absurd hstep (by simp)
  | clientRekey => exact h.clientRekey hstep
  | clientClose =>
    cases hstep
    exact { h with serverPc := h.serverPc, clientPc := h.clientPc }

end Steps

theorem inv_init {s : Sys} {timeThreshold bytesThreshold : Nat}
    (h : (machine timeThreshold bytesThreshold).init s) : Inv s := by
  rw [show s = _ from h]
  exact {
    clientWf := ⟨rfl, by simp⟩, serverWf := ⟨rfl, by simp⟩, clientActive := rfl
    serverActive := rfl, pre := List.prefix_refl _, nodup := by simp
    below := by simp [Key.Below], clientDropped := Nat.le_refl _, serverDropped := by simp
    token := rfl, requestsArrived := by simp, requestsRead := Nat.le_refl _
    requestsInstalled := by simp, repliesArrived := by simp, repliesRead := Nat.le_refl _
    repliesInstalled := by simp, repliesWritten := by simp, exchanged := by simp
    outstanding := by simp, sending := by simp, requestsFresh := by simp, serverPc := trivial
    clientPc := trivial, toServer := by simp, toClient := by simp, serverOpen := by simp
    clientOpen := by simp }

/-! ## Later states -/

/-- What the key sequence and the positions in it do along a run. -/
structure Later (s t : Sys) : Prop where
  keys : s.server.installed <+: t.server.installed
  client : s.client.installed.length ≤ t.client.installed.length
  server : s.server.dropped ≤ t.server.dropped

theorem Later.refl (s : Sys) : Later s s := ⟨List.prefix_refl _, Nat.le_refl _, Nat.le_refl _⟩

theorem Later.trans {s t u : Sys} (h : Later s t) (h' : Later t u) : Later s u :=
  ⟨h.keys.trans h'.keys, Nat.le_trans h.client h'.client, Nat.le_trans h.server h'.server⟩

@[simp] theorem Crypto.consumeBytes_history (r : Crypto) (n : Nat) :
    (r.consumeBytes n).installed = r.installed ∧ (r.consumeBytes n).dropped = r.dropped := by
  unfold Crypto.consumeBytes
  split <;> exact ⟨rfl, rfl⟩

theorem Crypto.opened_history (r : Crypto) (idx n : Nat) :
    (r.opened idx n).installed = r.installed ∧ r.dropped ≤ (r.opened idx n).dropped := by
  unfold Crypto.opened Crypto.promoteKey
  split
  · split
    · exact ⟨rfl, Nat.le_refl _⟩
    · exact ⟨rfl, Nat.le_add_right _ _⟩
  · rw [(r.consumeBytes_history n).1, (r.consumeBytes_history n).2]
    exact ⟨rfl, Nat.le_refl _⟩

namespace ClientSide

variable {c c' : ClientSide} {ok : Bool}

theorem startRekey_installed (c : ClientSide) (since : Nat) :
    (c.startRekey since).client.installed.length = c.client.installed.length := by
  unfold startRekey
  split <;> rfl

theorem doRekey_installed {k : Nat} {sent : Option Nat} (h : c.doRekey k ok = some (c', sent)) :
    c'.client.installed.length = c.client.installed.length := by
  unfold doRekey at h
  repeat' split at h
  all_goals cases h <;> rfl

theorem handleClientRekey_installed (h : c.handleClientRekey ok = some c') :
    c.client.installed.length ≤ c'.client.installed.length := by
  unfold handleClientRekey at h
  repeat' split at h
  all_goals cases h
  case h_3.isTrue => simp [Crypto.installKey]
  all_goals exact Nat.le_refl _

end ClientSide

theorem Later.next {s s' : Sys} {a : Act} (hstep : next s a = some s') : Later s s' := by
  have hkeep : Later s s := .refl s
  cases a with
  | clientSeal carries bytes =>
    simp only [Rekey.next] at hstep
    repeat' split at hstep
    all_goals cases hstep
    exact ⟨hkeep.keys, by simp, hkeep.server⟩
  | serverSeal carries bytes =>
    simp only [Rekey.next] at hstep
    repeat' split at hstep
    all_goals cases hstep
    exact ⟨by simp, hkeep.client, by simp⟩
  | serverOpened bytes =>
    simp only [Rekey.next] at hstep
    repeat' split at hstep
    all_goals cases hstep
    · exact ⟨hkeep.keys, hkeep.client, hkeep.server⟩
    · rename_i idx _
      obtain ⟨hi, hd⟩ := s.server.opened_history idx bytes
      exact ⟨by rw [hi], hkeep.client, hd⟩
  | clientOpened bytes =>
    simp only [Rekey.next] at hstep
    repeat' split at hstep
    all_goals cases hstep
    · exact ⟨hkeep.keys, hkeep.client, hkeep.server⟩
    · rename_i idx _
      exact ⟨hkeep.keys, by rw [(s.client.opened_history idx bytes).1], hkeep.server⟩
  | serverRekey ok =>
    simp only [Rekey.next, serverRekeyStep] at hstep
    split at hstep <;> cases hstep
    · exact ⟨List.prefix_append _ _, hkeep.client, hkeep.server⟩
    · exact ⟨hkeep.keys, hkeep.client, hkeep.server⟩
  | clientRekey =>
    obtain ⟨c, hside, rfl⟩ := Option.map_eq_some_iff.mp hstep
    exact ⟨hkeep.keys, ClientSide.handleClientRekey_installed hside, hkeep.server⟩
  | startRekey since =>
    cases hstep
    exact ⟨hkeep.keys, (s.toClientSide.startRekey_installed since).ge, hkeep.server⟩
  | doRekey k ok =>
    obtain ⟨⟨c, sent⟩, hside, rfl⟩ := Option.map_eq_some_iff.mp hstep
    exact ⟨hkeep.keys, (ClientSide.doRekey_installed hside).ge, hkeep.server⟩
  | _ =>
    simp only [Rekey.next] at hstep
    repeat' split at hstep
    all_goals cases hstep <;> exact ⟨hkeep.keys, hkeep.client, hkeep.server⟩

/-- A position in the key sequence that only moves forward never comes back to
a key it has left. -/
theorem Inv.no_return {v : Sys} (h : Inv v) {i j k : Nat} (hij : i ≤ j) (hjk : j ≤ k)
    {key : Key} (hi : v.server.installed[i]? = some key)
    (hk : v.server.installed[k]? = some key) : j = i := by
  have := h.position hi hk
  omega

/-! ## The connection holds -/

/-- Both active indices are valid and each side seals with a key the other
side has. -/
structure Connected (s : Sys) : Prop where
  client : s.client.activeIdx < s.client.gcmList.length
  server : s.server.activeIdx < s.server.gcmList.length
  toServer : ∃ key, s.client.sealingKey = some key ∧ key ∈ s.server.gcmList
  toClient : ∃ key, s.server.sealingKey = some key ∧ key ∈ s.client.gcmList

/-- What is sealed in `s` opens in `t` if the receiver's keys are the same. -/
structure Delivered (s t : Sys) : Prop where
  toServer : t.server.gcmList = s.server.gcmList →
    ∃ key, s.client.sealingKey = some key ∧ (openIdx t.server.gcmList key).isSome
  toClient : t.client.gcmList = s.client.gcmList →
    ∃ key, s.server.sealingKey = some key ∧ (openIdx t.client.gcmList key).isSome

/-- A side that has left its sealing key behind does not seal with it again. -/
structure KeysAdvance (s t u : Sys) : Prop where
  client : u.client.sealingKey = s.client.sealingKey → t.client.sealingKey = s.client.sealingKey
  server : u.server.sealingKey = s.server.sealingKey → t.server.sealingKey = s.server.sealingKey

theorem openIdx_isSome {gcmList : List Key} {key : Key} (h : key ∈ gcmList) :
    (openIdx gcmList key).isSome := by
  rw [openIdx, List.findIdx?_isSome, List.any_eq_true]
  exact ⟨key, h, by simp⟩

theorem Crypto.Wf.mem {r : Crypto} (h : r.Wf) {i : Nat} {key : Key} (hle : r.dropped ≤ i)
    (hi : r.installed[i]? = some key) : key ∈ r.gcmList := by
  refine List.mem_of_getElem? (i := i - r.dropped) ?_
  rw [h.getElem?, Nat.add_sub_cancel' hle]
  exact hi

theorem Inv.connected {s : Sys} (h : Inv s) : Connected s := by
  have hact := h.clientActive
  have hpre := h.pre.length_le
  have hcd := h.clientDropped
  have hsd := h.serverDropped
  refine ⟨?_, ?_, ?_, ?_⟩
  · rw [h.clientWf.length]
    omega
  · rw [h.serverWf.length, h.serverActive]
    omega
  · have hkey : s.server.installed[s.client.installed.length - 1]? = some _ :=
      List.getElem?_eq_getElem (by omega)
    exact ⟨_, h.client_sealingKey.trans hkey, h.serverWf.mem (by omega) hkey⟩
  · have hkey : s.client.installed[s.server.dropped]? = some _ :=
      List.getElem?_eq_getElem (by omega)
    exact ⟨_, h.server_sealingKey.trans (getElem?_grows h.pre hkey), h.clientWf.mem hcd hkey⟩

theorem Connected.delivered {s : Sys} (h : Connected s) (t : Sys) : Delivered s t := by
  obtain ⟨kc, hkc, hmc⟩ := h.toServer
  obtain ⟨kv, hkv, hmv⟩ := h.toClient
  refine ⟨fun heq => ⟨kc, hkc, ?_⟩, fun heq => ⟨kv, hkv, ?_⟩⟩
  · rw [heq]
    exact openIdx_isSome hmc
  · rw [heq]
    exact openIdx_isSome hmv

theorem Inv.keysAdvance {s t u : Sys} (hs : Inv s) (ht : Inv t) (hu : Inv u) (hst : Later s t)
    (htu : Later t u) : KeysAdvance s t u := by
  obtain ⟨kc, hkc, _⟩ := hs.connected.toServer
  obtain ⟨kv, hkv, _⟩ := hs.connected.toClient
  refine ⟨fun heq => ?_, fun heq => ?_⟩
  · have hks := hs.client_sealingKey.symm.trans hkc
    have hku := hu.client_sealingKey.symm.trans (heq.trans hkc)
    have hpos := hu.no_return (Nat.sub_le_sub_right hst.client 1)
      (Nat.sub_le_sub_right htu.client 1) (getElem?_grows (hst.trans htu).keys hks) hku
    rw [ht.client_sealingKey, hpos, hkc]
    exact getElem?_grows hst.keys hks
  · have hks := hs.server_sealingKey.symm.trans hkv
    have hku := hu.server_sealingKey.symm.trans (heq.trans hkv)
    have hpos := hu.no_return hst.server htu.server (getElem?_grows (hst.trans htu).keys hks) hku
    rw [ht.server_sealingKey, hpos, hkv]
    exact getElem?_grows hst.keys hks

/-- **Key rotation never cuts the connection.** In every reachable state both
active indices are valid and each side seals with a key the other side has. So
a datagram sealed there opens in every later state in which the receiver's keys
have not changed. And along every run on from there, a side that has changed
its sealing key never seals with the old one again. -/
theorem rotation_keeps_connection (timeThreshold bytesThreshold : Nat) {s : Sys}
    (h : (machine timeThreshold bytesThreshold).Reachable s) :
    Connected s ∧
    (∀ t, (machine timeThreshold bytesThreshold).Path (fun _ _ => True) s t → Delivered s t) ∧
    ∀ t u, (machine timeThreshold bytesThreshold).Path (fun _ _ => True) s t →
      (machine timeThreshold bytesThreshold).Path (fun _ _ => True) t u → KeysAdvance s t u := by
  have hinv : ∀ {s}, (machine timeThreshold bytesThreshold).Reachable s → Inv s := fun hs =>
    hs.invariant (fun _ h0 => inv_init h0) (fun _ _ _ hi _ hn => hi.next hn)
  have hlater : ∀ {s t},
      (machine timeThreshold bytesThreshold).Path (fun _ _ => True) s t → Later s t := fun hp =>
    hp.lift .refl .trans (fun _ _ _ _ hn => .next hn)
  refine ⟨(hinv h).connected, fun t _ => (hinv h).connected.delivered t, fun t u hst htu => ?_⟩
  have ht := hst.reachableVia h
  exact (hinv h).keysAdvance (hinv ht) (hinv (htu.reachableVia ht)) (hlater hst) (hlater htu)

/-- One rotation: the client asks, the server installs and answers, the client
installs, and its first datagram under the new key moves the server over. -/
def oneRotation : List Act :=
  [.startRekey 100, .doRekey 0 true, .doRekey 0 true, .clientSeal 1 10, .serverOpen 0,
    .serverOpened 10, .serverRead true, .serverRekey true, .serverRekey true, .serverSeal 1 10,
    .clientOpen 0, .clientOpened 10, .clientRead true, .clientRekey, .clientRekey, .clientRekey,
    .clientSeal 1 10, .serverOpen 1, .serverOpened 10]

theorem rotation_keeps_connection_once : ∃ s, (machine 10 100).Reachable s ∧
    s.client.sealingKey = some (.derived 0 1) ∧ s.server.sealingKey = some (.derived 0 1) ∧
    s.server.gcmList = [.derived 0 1] ∧ Connected s := by
  have hrun : ((machine 10 100).exec { client := { timeThreshold := 10, bytesThreshold := 100 } }
      oneRotation).any (fun s => decide (s.client.sealingKey = some (.derived 0 1) ∧
        s.server.sealingKey = some (.derived 0 1) ∧ s.server.gcmList = [.derived 0 1])) = true := by
    decide
  obtain ⟨s, hs, hend⟩ := (Option.any_eq_true _ _).mp hrun
  have hreach : (machine 10 100).Reachable s := .exec (.init rfl) hs
  obtain ⟨hc, hv, hl⟩ := of_decide_eq_true hend
  exact ⟨s, hreach, hc, hv, hl, (rotation_keeps_connection 10 100 hreach).1⟩

end Tsshd.Rekey

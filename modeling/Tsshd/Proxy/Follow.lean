import Tsshd.Proxy.Contracts
import Tsshd.Proxy.Transport

/-!
# The programs of the proxy as routines

`Tsshd.Proxy.Server` has the goroutines as programs over all clients,
`Tsshd.Proxy.Transport` as routines over the fields of one client.

* **a program** — `Follows`: whatever happens in between, each access of the
  program is the next one of a routine, or leaves the client alone;
* **a run** — `machine_follows`: what a run of the programs does to a client, a
  run of the routines does, goroutine by goroutine.

Connections on their way to be closed are not compared.
-/

namespace Tsshd.Proxy.Transport

open Assertion (unknown)

/-! ## The client as the routines see it -/

/-- The client without what no routine reads. -/
def core (x : Client) : Client :=
  { x with server := none, clientCond := false, kcpCrypto := false }

/-- The update works on the fields the routines see. -/
def OnCore (f : Client → Client) : Prop := ∀ x y, core x = core y → core (f x) = core (f y)

theorem onCore_of_comm {f : Client → Client} (h : ∀ x, core (f x) = f (core x)) : OnCore f :=
  fun x y hxy => by rw [h, h, hxy]

theorem onCore_swapAddr (slot : Slot) (old new : Option AddrRef) :
    OnCore (·.swapAddr slot old new) := by
  refine onCore_of_comm fun x => ?_
  have hget : (core x).get slot = x.get slot := by cases slot <;> rfl
  unfold Client.swapAddr
  rw [hget, apply_ite core]
  cases slot <;> cases new <;> rfl

theorem onCore_swapConn (old new : Option Nat) : OnCore (·.swapConn old new) :=
  onCore_of_comm fun x => apply_ite core (old = none ∨ x.clientConn = old) _ x

theorem onCore_casSerial (old new : Nat) : OnCore (·.casSerial old new) :=
  onCore_of_comm fun x => apply_ite core (x.serialNumber = old) _ x

/-- The machine of client `c` is in the state of the proxy. -/
structure Shows (c : Nat) (s : Shared) (t : Sys) : Prop where
  client : core t.client = core (s.clients c)
  fresh : t.fresh = s.fresh

variable {α β : Type} {args : Args} {c d : Nat} {s : Shared} {t t' : Sys}

theorem Shows.get (h : Shows c s t) (f : Client → α) (hf : ∀ x, f (core x) = f x) :
    f t.client = f (s.clients c) := by
  rw [← hf, h.client, hf]

/-- An access that leaves every client alone. -/
def still : Contract Shared where
  rely _ _ := True
  guar s s' := (∀ c, core (s'.clients c) = core (s.clients c)) ∧ s'.fresh = s.fresh
  rely_refl _ := trivial
  rely_trans _ _ := trivial
  guar_refl _ := ⟨fun _ => rfl, rfl⟩

/-- The program makes no other accesses. -/
abbrev Leaves (p : Code α) : Prop := (unknown still).Keeps (fun _ _ => True) p

theorem leaves_of_same {s s' : Shared} (hclients : s'.clients = s.clients)
    (hfresh : s'.fresh = s.fresh) : (unknown still).Admits s s' :=
  fun _ => ⟨⟨fun c => by rw [hclients], hfresh⟩, trivial⟩

theorem bookkeeping : Bookkeeping (unknown still) where
  index _ _ _ slot := by cases slot <;> exact leaves_of_same rfl rfl
  created _ _ := leaves_of_same rfl rfl
  cache _ _ := leaves_of_same rfl rfl
  signals _ _ := leaves_of_same rfl rfl
  acks _ _ := leaves_of_same rfl rfl
  conns _ _ := leaves_of_same rfl rfl
  notified _ _ := leaves_of_same rfl rfl

theorem leaves_modify {f : Client → Client} (hf : ∀ x, core (f x) = core x) :
    Leaves (modify d f) :=
  .store fun s _ _ => ⟨⟨Shared.update_forall (P := fun c x => core x = core (s.clients c)) (hf _)
    fun _ _ => rfl, rfl⟩, trivial⟩

/-! ## Programs that follow routines -/

/-- What a routine does for one access of a program: nothing, one access, for
which it may turn to the client, or it draws a number for another client. -/
inductive Moves (reader : Bool) (t : Sys) (r : Routine) : Sys → Routine → Prop
  | stay : Moves reader t r t r
  | draw : r.idle = true → Moves reader t r { t with fresh := t.fresh + 1 } (.drawn t.fresh)
  | run (ok : Bool) {q : Routine} : q = r ∨ r.turns reader q = true →
      Moves reader t r (q.step t ok).1 (q.step t ok).2

variable {alone : Prop} {reader : Bool} {post : α → Routine → Prop} {r q : Routine}

/-- From routine `r` on, the program makes the accesses of routines to client
`c`, and ends in `post`. If it is `alone`, it touches no other client. -/
def Follows (c : Nat) (alone : Prop) (reader : Bool) (post : α → Routine → Prop) :
    Code α → Routine → Prop
  | .ret a, r => post a r
  | .access _ en up k, r => ∀ e s t, en e s = true → Shows c s t →
      (alone → ∀ d, d ≠ c → core ((up e s).clients d) = core (s.clients d)) ∧
        ∃ t' r', Moves reader t r t' r' ∧ Shows c (up e s) t' ∧
          Follows c alone reader post (k e s) r'

theorem Follows.bind {p : Code β} {f : β → Code α}
    (h : Follows c alone reader (fun b q => Follows c alone reader post (f b) q) p r) :
    Follows c alone reader post (p >>= f) r := by
  induction p generalizing r with
  | ret b => exact h
  | access l en up k ih =>
    intro e s t hen hs
    obtain ⟨halone, t', r', hmoves, hs', hrest⟩ := h e s t hen hs
    exact ⟨halone, t', r', hmoves, hs', ih e s hrest⟩

theorem Follows.leave {p : Code α} (hp : Leaves p) (hpost : ∀ a, post a r) :
    Follows c alone reader post p r := by
  have hsafe := hp (started ⟨false, false, false, 1, 0⟩) trivial
  generalize started ⟨false, false, false, 1, 0⟩ = s at hsafe
  clear hp
  induction p generalizing s with
  | ret a => exact hpost a
  | access l en up k ih =>
    intro e u t hen ht
    obtain ⟨⟨hcore, hfresh⟩, hrest⟩ := hsafe u e trivial trivial hen
    exact ⟨fun _ d _ => hcore d, t, r, .stay,
      ⟨ht.client.trans (hcore c).symm, ht.fresh.trans hfresh.symm⟩, ih e u _ hrest⟩

theorem Follows.after {p : Code β} {f : β → Code α} (hp : Leaves p)
    (hf : ∀ b, Follows c alone reader post (f b) r) : Follows c alone reader post (p >>= f) r :=
  .bind (.leave hp hf)

theorem Follows.when {b : Bool} {p : Code Unit} {post : Unit → Routine → Prop}
    (hp : b = true → Follows c alone reader post p r) (hskip : b = false → post () r) :
    Follows c alone reader post (Prog.when b p) r := by
  cases b with
  | true => exact hp rfl
  | false => exact hskip rfl

/-- The access of routine `q` updates the client by `f`, and `P` holds of what
comes next. -/
def Does (q : Routine) (t : Sys) (ok : Bool) (f : Client → Client) (P : Routine → Prop) : Prop :=
  ∃ t' q', q.step t ok = (t', q') ∧ core t'.client = core (f t.client) ∧ t'.fresh = t.fresh ∧ P q'

/-- An access that is the next one of the routine, or the first one after it
has turned to the client. -/
theorem Follows.access {l : Label} {f : Client → Client} {up : Env → Shared → Shared}
    {value : Env → Shared → α} (hq : q = r ∨ r.turns reader q = true) (hf : OnCore f)
    (hup : ∀ e s, (up e s).fresh = s.fresh ∧ (up e s).clients c = f (s.clients c) ∧
      ∀ d, d ≠ c → (up e s).clients d = s.clients d) (ok : Env → Bool)
    (h : ∀ e s t, Shows c s t → Does q t (ok e) f (post (value e s))) :
    Follows c alone reader post (Prog.atomic l (fun _ _ => true) up value) r := by
  intro e s t _ hs
  obtain ⟨t', q', hstep, hcore, hfresh, hpost⟩ := h e s t hs
  obtain ⟨hfresh', hclient, hothers⟩ := hup e s
  refine ⟨fun _ d hd => by rw [hothers d hd], t', q', ?_, ⟨?_, ?_⟩, hpost⟩
  · simpa only [hstep] using Moves.run (t := t) (ok e) hq
  · rw [hcore, hclient]
    exact hf _ _ hs.client
  · rw [hfresh, hs.fresh, hfresh']

theorem Follows.exchange {l : Label} {f : Client → Client} {g : Client → α}
    (hq : q = r ∨ r.turns reader q = true) (hf : OnCore f) (hg : ∀ x, g (core x) = g x)
    (h : ∀ t, Does q t true f (post (g t.client))) :
    Follows c alone reader post
      (Prog.exchange l (fun s => s.update c f) (fun s => g (s.clients c))) r :=
  .access hq hf (fun _ s => ⟨rfl, s.update_self c f, fun _ => s.update_of_ne f⟩) (fun _ => true)
    fun _ _ t hs => (congrArg (Does q t true f <| post ·) (hs.get g hg)).mp (h t)

theorem Follows.modify {f : Client → Client} {post : Unit → Routine → Prop}
    (hq : q = r ∨ r.turns reader q = true) (hf : OnCore f)
    (h : ∀ t, Does q t true f (post ())) : Follows c alone reader post (modify c f) r :=
  .exchange (g := fun _ => ()) hq hf (fun _ => rfl) h

theorem Follows.field {g : Client → α} (hq : q = r ∨ r.turns reader q = true)
    (hg : ∀ x, g (core x) = g x) (h : ∀ t, Does q t true id (post (g t.client))) :
    Follows c alone reader post (field c g) r :=
  .access hq (fun _ _ h => h) (fun _ _ => ⟨rfl, rfl, fun _ _ => rfl⟩) (fun _ => true)
    fun _ _ t hs => (congrArg (Does q t true id <| post ·) (hs.get g hg)).mp (h t)

theorem Follows.succeeds {post : Bool → Routine → Prop}
    (h : ∀ ok t, Does r t ok id (post ok)) : Follows c alone reader post succeeds r :=
  .access (.inl rfl) (fun _ _ h => h) (fun _ _ => ⟨rfl, rfl, fun _ _ => rfl⟩) Env.ok
    fun e _ t _ => h e.ok t

theorem turns_of_starts (hr : r.idle = true) (hq : q.starts reader = true) :
    r.turns reader q = true := by
  unfold Routine.turns
  split
  · cases hq
  · rw [hr, hq]
    rfl

theorem alloc_follows {post : Nat → Routine → Prop} (hr : r.idle = true)
    (h : ∀ n, post n (.drawn n)) : Follows c alone reader post alloc r := by
  intro e s t _ hs
  exact ⟨fun _ _ _ => rfl, _, _, .draw hr, ⟨hs.client, congrArg (· + 1) hs.fresh⟩,
    hs.fresh ▸ h t.fresh⟩

theorem Moves.fresh (h : Moves reader t r t' q) : t'.fresh = t.fresh ∨ t'.fresh = t.fresh + 1 := by
  cases h with
  | stay => exact .inl rfl
  | draw => exact .inr rfl
  | run ok => exact Routine.step_draws t ok _

/-- What a goroutine does to one client is, for another, at most a number
drawn. -/
theorem Follows.on {P : α → Routine → Prop} {p : Code α} (hr : r.idle = true)
    (h : Follows d True reader P p r) (hidle : ∀ a q, P a q → q.idle = true)
    (hpost : ∀ a q r, P a q → r.idle = true → post a r) : Follows c False reader post p r := by
  by_cases hd : d = c
  · subst hd
    clear hr
    induction p generalizing r with
    | ret a => exact hpost a r r h (hidle a r h)
    | access l en up k ih =>
      intro e s t hen hs
      obtain ⟨-, t', r', hmoves, hs', hrest⟩ := h e s t hen hs
      exact ⟨False.elim, t', r', hmoves, hs', ih e s hrest⟩
  · replace h : ∃ q, Follows d True reader P p q := ⟨r, h⟩
    obtain ⟨q, h⟩ := h
    induction p generalizing q r with
    | ret a => exact hpost a q r h hr
    | access l en up k ih =>
      intro e s t hen hs
      obtain ⟨halone, u, q', hmoves, hu, hrest⟩ :=
        h e s { client := s.clients d, fresh := s.fresh } hen ⟨rfl, rfl⟩
      have hclient := hs.client.trans (halone trivial c (Ne.symm hd)).symm
      refine ⟨False.elim, ?_⟩
      rcases hmoves.fresh with hfresh | hfresh
      · exact ⟨t, r, .stay, ⟨hclient, by rw [hs.fresh, ← hu.fresh, hfresh]⟩, ih e s hr q' hrest⟩
      · exact ⟨_, _, .draw hr, ⟨hclient, by rw [hs.fresh, ← hu.fresh, hfresh]⟩, ih e s rfl q' hrest⟩

/-! ## The setters -/

theorem setAddr_follows {slot : Slot} {old new : Option AddrRef}
    {post : Unit → Routine → Prop} (hq : q = r ∨ r.turns reader q = true)
    (h : ∀ t, Does q t true (·.swapAddr slot old new) (post ())) :
    Follows c alone reader post (setAddr args slot c old new) r := by
  refine .after (field_keeps c _) fun conn => .bind (.exchange hq (onCore_swapAddr slot old new)
    (g := (·.replacedAddr slot old)) (by intro x; cases slot <;> rfl) fun t => ?_)
  obtain ⟨t', q', hstep, hcore, hfresh, hpost⟩ := h t
  exact ⟨t', q', hstep, hcore, hfresh,
    .leave (bookkeeping.maps slot c new.isSome conn _) fun _ => hpost⟩

theorem setClientConn_follows {old new : Option Nat} {post : Unit → Routine → Prop}
    (hq : q = r ∨ r.turns reader q = true)
    (h : ∀ t, Does q t true (·.swapConn old new) (post ())) :
    Follows c alone reader post (setClientConn c old new) r := by
  refine .bind (.exchange hq (onCore_swapConn old new) (g := (·.replacedConn old)) (fun _ => rfl)
    fun t => ?_)
  obtain ⟨t', q', hstep, hcore, hfresh, hpost⟩ := h t
  refine ⟨t', q', hstep, hcore, hfresh, ?_⟩
  cases t.client.replacedConn old with
  | none => exact hpost
  | some conn => exact .leave (bookkeeping.closeConn conn) fun _ => hpost

/-! ## The programs -/

/-- The routine is done with the client behind the program. -/
abbrev Rests (c : Nat) (alone : Prop) (reader : Bool) (p : Code α) (r : Routine) : Prop :=
  Follows c alone reader (fun _ q => q.idle = true) p r

section
variable (hr : r.idle = true)
include hr

theorem drop_follows (conn : Nat) :
    Rests c alone reader (setClientConn c (some conn) none) r :=
  setClientConn_follows (.inr (turns_of_starts hr rfl)) (q := .drop conn)
    fun _ => ⟨_, _, rfl, rfl, rfl, rfl⟩

theorem close_follows : Rests c alone reader (close args c) r := by
  refine .bind (.exchange (.inr (turns_of_starts hr rfl)) (q := .close .closed)
    (onCore_of_comm fun _ => rfl) (g := (!·.closed)) (fun _ => rfl) fun t => ?_)
  cases hclosed : t.client.closed with
  | true => exact ⟨_, _, if_pos hclosed, by rw [← hclosed], rfl, rfl⟩
  | false =>
    refine ⟨_, _, if_neg (by simp [hclosed]), rfl, rfl, ?_⟩
    refine .after (leaves_modify fun _ => rfl) fun _ => .after (leaves_modify fun _ => rfl) fun _ =>
      .bind (.modify (.inl rfl) (fun _ _ h => h) fun t => ⟨_, _, rfl, rfl, rfl, ?_⟩)
    refine .bind (setClientConn_follows (.inl rfl) fun _ => ⟨_, _, rfl, rfl, rfl, ?_⟩)
    refine .bind (setAddr_follows (.inl rfl) fun _ => ⟨_, _, rfl, rfl, rfl, ?_⟩)
    refine .bind (setAddr_follows (.inl rfl) fun _ => ⟨_, _, rfl, rfl, rfl, ?_⟩)
    exact .modify (.inl rfl) (onCore_of_comm fun _ => rfl) fun t => ⟨_, _, rfl, rfl, rfl, rfl⟩

theorem timeout_follows : Rests c alone reader (timeout args c) r := by
  refine .bind (.field (.inr (turns_of_starts hr rfl)) (q := .timeout .authed {}) (fun _ => rfl)
    fun _ => ⟨_, _, rfl, rfl, rfl, ?_⟩)
  refine .bind (.field (.inl rfl) (fun _ => rfl) fun _ => ⟨_, _, rfl, rfl, rfl, ?_⟩)
  refine .bind (.field (.inl rfl) (fun _ => rfl) fun _ => ⟨_, _, rfl, rfl, rfl, ?_⟩)
  refine .bind (.succeeds fun ok _ => ⟨_, _, rfl, rfl, rfl, ?_⟩)
  cases ok with
  | false => exact rfl
  | true =>
    refine .bind (setAddr_follows (.inl rfl) fun _ => ⟨_, _, rfl, rfl, rfl, ?_⟩)
    refine .bind (setAddr_follows (.inl rfl) fun _ => ⟨_, _, rfl, rfl, rfl, ?_⟩)
    exact setClientConn_follows (.inl rfl) fun _ => ⟨_, _, rfl, rfl, rfl, rfl⟩

theorem authenticate_follows (addr : UDPAddr) (serial : Nat) :
    Rests c alone reader (Udp.authenticate args c addr serial) r := by
  refine .bind (.field (.inr (turns_of_starts hr rfl)) (q := .auth .closed addr serial)
    (fun _ => rfl) fun t => ⟨_, _, rfl, rfl, rfl, ?_⟩)
  cases t.client.closed with
  | true => exact rfl
  | false =>
    refine .bind (.modify (.inl rfl) (onCore_of_comm fun _ => rfl)
      fun t => ⟨_, _, rfl, rfl, rfl, ?_⟩)
    refine .bind (.field (.inl rfl) (fun _ => rfl) fun t => ⟨_, _, rfl, rfl, rfl, ?_⟩)
    by_cases hlt : t.client.serialNumber < serial
    · rw [if_pos hlt, decide_eq_true hlt]
      refine .bind (.exchange (.inl rfl) (onCore_casSerial _ _)
        (g := fun x => decide (x.serialNumber = t.client.serialNumber)) (fun _ => rfl) fun u => ?_)
      by_cases hwon : u.client.serialNumber = t.client.serialNumber
      · refine ⟨_, _, if_pos hwon, rfl, rfl, ?_⟩
        rw [decide_eq_true hwon]
        refine .bind fun _ s v _ hs => ⟨fun _ _ _ => rfl, _, _, .run true (.inl rfl),
          ⟨hs.client, congrArg (· + 1) hs.fresh⟩, ?_⟩
        show Rests c alone reader
          (setAuthedAddr args c none (some ⟨s.fresh, addr, serial⟩))
          (.auth (.install v.fresh) addr serial)
        rw [← hs.fresh]
        exact setAddr_follows (.inl rfl) fun _ => ⟨_, _, rfl, rfl, rfl, rfl⟩
      · refine ⟨_, _, if_neg hwon, congrArg core (if_neg hwon).symm, rfl, ?_⟩
        rw [decide_eq_false hwon]
        exact rfl
    · rw [if_neg hlt, decide_eq_false hlt]
      exact rfl

theorem readAuthed_follows (packet : Datagram) :
    Rests c alone true (Udp.readAuthed args packet c) r := by
  unfold Udp.readAuthed
  split
  · refine .bind (.field (.inr (turns_of_starts hr rfl)) (q := .promote .load) (fun _ => rfl)
      fun t => ⟨_, _, rfl, rfl, rfl, ?_⟩)
    cases t.client.authedAddr with
    | none => exact rfl
    | some addr =>
      refine .bind (setAddr_follows (.inl rfl) fun _ => ⟨_, _, rfl, rfl, rfl, ?_⟩)
      refine .bind (setAddr_follows (.inl rfl) fun _ => ⟨_, _, rfl, rfl, rfl, ?_⟩)
      exact .after (bookkeeping.onNewClientConn c) fun _ => rfl
  · rename_i clientID serial _
    split
    · exact .bind (setAddr_follows (.inr (turns_of_starts hr rfl)) (q := .mismatch)
        fun _ => ⟨_, _, rfl, rfl, rfl, rfl⟩)
    · refine .bind (.field (.inr (turns_of_starts hr rfl)) (q := .refresh serial none)
        (fun _ => rfl) fun t => ⟨_, _, rfl, rfl, rfl, ?_⟩)
      by_cases hlt : serial < t.client.serialNumber
      · rw [if_pos hlt, if_pos hlt]
        exact rfl
      · rw [if_neg hlt, if_neg hlt]
        exact .bind (.modify (.inl rfl) (onCore_casSerial _ _) fun t => ⟨_, _, rfl, rfl, rfl, rfl⟩)

end

/-- The reader goes on with these. -/
def reads : Job → Bool
  | .readFrom | .receive => true
  | _ => false

/-- A goroutine at the end of a job. -/
def Ends (reader : Bool) (o : Option Job) (q : Routine) : Prop :=
  (∀ job ∈ o, reads job = true → reader = true) ∧ q.idle = true

theorem ends_none (hr : r.idle = true) : Ends reader none r := ⟨by simp, hr⟩

theorem ends_reader (hr : r.idle = true) (o : Option Job) : Ends true o r := ⟨fun _ _ _ => rfl, hr⟩

theorem handshake_follows (hr : r.idle = true) :
    Follows c False reader (Ends reader) (Tcp.handshake args) r := by
  refine .bind (alloc_follows hr fun conn => ?_)
  have hfail : ∀ {d alone q}, q.idle = true → Follows d alone reader (Ends reader)
      (do closeConn conn; pure none : Code (Option Job)) q := fun hq =>
    .after (bookkeeping.closeConn conn) fun _ => ends_none hq
  refine .after .wait fun auth => ?_
  split
  · exact hfail rfl
  rename_i clientID serial _
  refine .after (bookkeeping.getClient_keeps _) fun o => ?_
  cases o with
  | none => exact hfail rfl
  | some d =>
    refine .on (P := Ends reader) rfl (.bind (.field (.inr (decide_eq_true rfl))
      (q := .handshake .closed conn serial) (fun _ => rfl) fun t => ?_))
      (fun _ _ h => h.2) fun _ _ _ h hq => ⟨h.1, hq⟩
    cases hclosed : t.client.closed with
    | true => exact ⟨_, _, if_pos hclosed, rfl, rfl, hfail rfl⟩
    | false =>
      refine ⟨_, _, if_neg (by simp [hclosed]), rfl, rfl, .bind (.field (.inl rfl)
        (fun _ => rfl) fun t => ?_)⟩
      by_cases hlt : t.client.serialNumber < serial
      · refine ⟨_, _, if_pos hlt, rfl, rfl, ?_⟩
        rw [if_neg (Nat.not_le.mpr hlt)]
        refine .bind (.exchange (.inl rfl) (onCore_casSerial _ _)
          (g := fun x => decide (x.serialNumber = t.client.serialNumber)) (fun _ => rfl)
          fun u => ?_)
        by_cases hwon : u.client.serialNumber = t.client.serialNumber
        · refine ⟨_, _, if_pos hwon, rfl, rfl, ?_⟩
          rw [decide_eq_true hwon]
          refine .bind (.succeeds fun ok _ => ?_)
          cases ok with
          | false => exact ⟨_, _, rfl, rfl, rfl, hfail rfl⟩
          | true =>
            refine ⟨_, _, rfl, rfl, rfl, .bind (setClientConn_follows (.inl rfl)
              fun _ => ⟨_, _, rfl, rfl, rfl, ?_⟩)⟩
            refine .after (bookkeeping.onNewClientConn d) fun _ => ⟨?_, rfl⟩
            split <;> simp [reads]
        · refine ⟨_, _, if_neg hwon, congrArg core (if_neg hwon).symm, rfl, ?_⟩
          rw [decide_eq_false hwon]
          exact hfail rfl
      · refine ⟨_, _, if_neg hlt, rfl, rfl, ?_⟩
        rw [if_pos (Nat.not_lt.mp hlt)]
        exact hfail rfl

/-! ## The jobs -/

theorem openPacket_leaves (packet : Packet) (d : Nat) : Leaves (openPacket packet d) := by
  have hdeliver : ∀ opened, Leaves (deliver packet d opened) := fun _ =>
    .bind (.exchange fun _ _ => leaves_of_same rfl rfl) fun _ => .pure _
  exact .bind (.exchange fun _ _ => leaves_of_same rfl rfl) fun _ =>
    .ite (.bind succeeds_keeps fun _ => .ite (hdeliver true) (.pure _)) (hdeliver false)

theorem readFromUDP_leaves : Leaves Udp.readFromUDP :=
  .atomic fun _ _ _ _ => leaves_of_same rfl rfl

theorem getClient_leaves (addr : UDPAddr) : Leaves (Udp.getClient args addr) := fun _ _ =>
  getClient_found (J := unknown still) (K := fun _ => unknown still) (fun _ _ _ _ _ => trivial)
    (fun _ _ _ _ _ => trivial) (fun _ _ => trivial) (fun _ => bookkeeping) trivial

section
variable (hr : r.idle = true)
include hr

theorem receive_follows : Follows c False true (Ends true) (receive args) r := by
  have hrest : ∀ o (q : Routine), q.idle = true → Follows c False true (Ends true)
      (match o with
        | none => pure (some .receive)
        | some (packet, d) => openPacket (.datagram packet) d) q := by
    rintro (_ | ⟨packet, d⟩) q hq
    · exact ends_reader hq _
    · exact .leave (openPacket_leaves _ _) (ends_reader hq)
  refine .bind (.after readFromUDP_leaves fun packet => .after (getClient_leaves _) fun found => ?_)
  cases found with
  | client d => exact hrest (Udp.forward packet d) r hr
  | authed d =>
    exact .on hr (readAuthed_follows hr packet) (fun _ _ hq => hq) fun o _ q _ => hrest o q
  | unknown =>
    simp only [Udp.readUnknown]
    split
    · exact hrest none r hr
    · refine .after (bookkeeping.getClient_keeps _) fun o => ?_
      cases o with
      | none => exact hrest none r hr
      | some d =>
        exact .bind (.on hr (authenticate_follows hr _ _) (fun _ _ hq => hq)
          fun _ _ q _ => hrest none q)

theorem probeAuth_follows (socket : Nat) :
    Follows c False reader (Ends reader) (Udp.probeAuth args socket) r := by
  refine .after readFromUDP_leaves fun packet => ?_
  split
  · exact ⟨by simp [reads], hr⟩
  have hunlock : ∀ {q : Routine}, q.idle = true →
      Follows c False reader (fun _ q => Ends reader none q) Udp.unlock q := fun hq =>
    .leave (.store fun _ _ => leaves_of_same rfl rfl) fun _ => ends_none hq
  refine .bind (.after (.atomic fun _ _ _ _ => leaves_of_same rfl rfl) fun _ =>
    .after .load fun conn => ?_)
  split
  · exact hunlock hr
  refine .after (.store fun _ _ => leaves_of_same rfl rfl) fun _ =>
    .after (bookkeeping.getClient_keeps _) fun o => ?_
  cases o with
  | none => exact hunlock hr
  | some d =>
    exact .bind (.on hr (authenticate_follows hr _ _) (fun _ _ hq => hq)
      fun _ _ _ _ hq => hunlock hq)

theorem writeTo_follows (clientID : Nat) :
    Follows c False reader (fun _ q => Ends reader none q) (writeTo args clientID) r := by
  have hwrite : ∀ d frame, Follows c False reader (fun _ q => Ends reader none q)
      (writeUnlessClosed args d frame) r := fun d frame => by
    refine .after (field_keeps d _) fun _ => .when (fun _ => ?_) fun _ => ends_none hr
    unfold frontWriteTo
    split
    · refine .after (.exchange fun _ _ => leaves_of_same rfl rfl) fun conn => ?_
      cases conn with
      | none => exact ends_none hr
      | some conn =>
        refine .after succeeds_keeps fun _ => .when (fun _ => ?_) fun _ => ends_none hr
        exact .on hr (drop_follows hr conn) (fun _ _ hq => hq) fun _ _ _ _ hq => ends_none hq
    · exact .after (.exchange fun _ _ => leaves_of_same rfl rfl) fun _ => ends_none hr
  refine .after (bookkeeping.getClient_keeps _) fun o => ?_
  cases o with
  | none => exact ends_none hr
  | some d =>
    refine .after (field_keeps d _) fun kcpCrypto => ?_
    split
    · exact .after succeeds_keeps fun _ => .when (fun _ => hwrite _ _) fun _ => ends_none hr
    · exact hwrite _ _

theorem readFrom_follows : Follows c False true (Ends true) (readFrom args) r := by
  unfold readFrom
  split
  · split
    · refine .leave (.bind (.atomic fun _ _ _ _ => leaves_of_same rfl rfl) fun signal => ?_)
        (ends_reader hr)
      cases signal with
      | none => exact .pure _
      | some signal =>
        exact .bind succeeds_keeps fun _ => .bind (.store fun _ _ => leaves_of_same rfl rfl)
          fun _ => .ite (openPacket_leaves _ _) (.pure _)
    · refine .after .wait fun conn => ?_
      cases conn with
      | none => exact ends_none hr
      | some conn =>
        refine .after .input fun frame => ?_
        cases frame with
        | some length => exact .leave (openPacket_leaves _ _) (ends_reader hr)
        | none =>
          exact .bind (.on hr (drop_follows hr conn) (fun _ _ hq => hq)
            fun _ _ _ _ hq => ends_reader hq _)
  · refine .after (.bind .load fun _ => .when .wait) fun _ => ends_reader hr _

theorem readLoop_follows (conn d : Nat) :
    Follows c False reader (Ends reader) (Tcp.readLoop conn d) r := by
  have hleave : Follows c False reader (Ends reader)
      (do setClientConn d (some conn) none; pure none : Code (Option Job)) r :=
    .bind (.on hr (drop_follows hr conn) (fun _ _ hq => hq) fun _ _ _ _ hq => ends_none hq)
  refine .after (field_keeps d _) fun cur => ?_
  split
  · refine .after .input fun header => ?_
    cases header with
    | none => exact hleave
    | some length =>
      refine .after (.atomic fun _ _ _ _ => leaves_of_same rfl rfl) fun _ =>
        .after (.atomic fun _ _ _ _ => leaves_of_same rfl rfl) fun ack => ?_
      split
      · exact ⟨by simp [reads], hr⟩
      · exact hleave
  · exact hleave

theorem code_follows {job : Job} (hjob : reads job = true → reader = true) :
    Follows c False reader (Ends reader) (code args job) r := by
  have hend : ∀ {d : Nat} {p : Code Unit}, Rests d True reader p r →
      Follows c False reader (Ends reader) (do p; pure none) r := fun h =>
    .bind (.on hr h (fun _ _ hq => hq) fun _ _ _ _ hq => ends_none hq)
  cases job with
  | readFrom =>
    obtain rfl := hjob rfl
    exact readFrom_follows hr
  | receive =>
    obtain rfl := hjob rfl
    exact receive_follows hr
  | probeAuth socket => exact probeAuth_follows hr socket
  | writeTo clientID => exact .bind (writeTo_follows hr clientID)
  | close d => exact hend (close_follows hr)
  | timeout d => exact hend (timeout_follows hr)
  | activate d server => exact .after (leaves_modify fun _ => rfl) fun _ => ends_none hr
  | handshake => exact handshake_follows hr
  | readLoop conn d => exact readLoop_follows hr conn d
  | produce clientID serial =>
    exact .after (.store fun _ _ => leaves_of_same rfl rfl) fun _ => ends_none hr

end

/-! ## The runs -/

/-- What a goroutine does does not depend on the others. -/
theorem Routine.step_routines (t : Sys) (ok : Bool) (r : Routine) (l : List Routine) :
    r.step { t with routines := l } ok =
      ({ (r.step t ok).1 with routines := l }, (r.step t ok).2) := by
  rcases r with pc | ⟨_, pc⟩ | pc | _ | pc | pc | pc | _ | _ | _ <;> try cases pc
  all_goals first | rfl | (simp only [Routine.step]; split <;> rfl)

theorem reachable_next {a : Act} (ht : machine.Reachable t) (h : next t a = some t') :
    machine.Reachable t' := .step ht trivial h

theorem Moves.reachable {i : Nat} (ht : machine.Reachable t) (hr : t.At i r)
    (h : Moves (decide (i = 0)) t r t' q) :
    ∃ u, machine.Reachable u ∧ u.client = t'.client ∧ u.fresh = t'.fresh ∧
      u.routines = t.routines.set i q := by
  cases h with
  | stay =>
    obtain ⟨hi, rfl⟩ := List.getElem?_eq_some_iff.mp hr
    exact ⟨t, ht, rfl, rfl, (List.set_getElem_self hi).symm⟩
  | draw hidle =>
    have hany : t.routines[i]?.any (·.idle) = true := (Option.any_eq_true _ _).mpr ⟨r, hr, hidle⟩
    have hnext : next t (.draw i) = some _ := if_pos hany
    exact ⟨_, reachable_next ht hnext, rfl, rfl, rfl⟩
  | run ok hq =>
    rename_i q
    obtain ⟨l, hl, hat, hset⟩ : ∃ l, machine.Reachable { t with routines := l } ∧
        l[i]? = some q ∧ ∀ q', l.set i q' = t.routines.set i q' := by
      rcases hq with rfl | hturns
      · exact ⟨_, ht, hr, fun _ => rfl⟩
      · have hany : t.routines[i]?.any (·.turns (i = 0) q) = true :=
          (Option.any_eq_true _ _).mpr ⟨r, hr, hturns⟩
        have hnext : next t (.start i q) = some _ := if_pos hany
        exact ⟨_, reachable_next ht hnext, at_set_self hr, fun _ => List.set_set ..⟩
    have hnext : next { t with routines := l } (.run i ok) =
        some { (q.step t ok).1 with
          routines := l.set i (q.step t ok).2, clock := (q.step t ok).1.clock + 1 } := by
      simp only [next, hat, Routine.step_routines]
    exact ⟨_, reachable_next hl hnext, rfl, rfl, hset _⟩

/-- The goroutines of the proxy and the routines of client `c`, one by one. -/
structure Mirrors (c : Nat) (p : Pool Shared Env Label Job) (t : Sys) : Prop where
  shows : Shows c p.shared t
  length : t.routines.length = p.threads.length
  threads : ∀ i q, p.threads[i]? = some q →
    ∃ r, t.At i r ∧ Follows c False (decide (i = 0)) (Ends (decide (i = 0))) q r

theorem spawned_reachable (args : Args) (n : Nat) :
    machine.Reachable
      { client := newClientState args, routines := List.replicate (n + 1) .done } := by
  induction n with
  | zero => exact .init ⟨args, rfl⟩
  | succ n ih =>
    rw [List.replicate_succ']
    exact reachable_next ih (a := .spawn) rfl

/-- One step of the programs is some steps of the routines. -/
theorem Mirrors.next {p p' : Pool Shared Env Label Job} {a : Sched Env Job}
    (ht : machine.Reachable t) (h : Mirrors c p t) (hn : (system args).next p a = some p') :
    ∃ u, machine.Reachable u ∧ Mirrors c p' u := by
  cases a with
  | spawn job =>
    simp only [System.next] at hn
    split at hn
    case isFalse => cases hn
    rename_i hspawn
    cases hn
    have hjob : reads job = false := by
      cases job <;> first | rfl | cases hspawn
    refine ⟨_, reachable_next ht (a := .spawn) rfl, ⟨h.shows.client, h.shows.fresh⟩, ?_, ?_⟩
    · simp [h.length]
    · refine forall_thread_append ⟨.done, ?_, ?_⟩ fun i q hq => ?_
      · rw [← h.length]
        exact List.getElem?_concat_length
      · exact code_follows rfl (by simp [hjob])
      · obtain ⟨r, hr, hfollows⟩ := h.threads i q hq
        exact ⟨r, (List.getElem?_append_left (List.getElem?_eq_some_iff.mp hr).1).trans hr,
          hfollows⟩
  | run i e =>
    simp only [System.next] at hn
    split at hn
    · cases hn
    · cases hn
    · rename_i job hcur
      cases hn
      obtain ⟨r, hr, hjob, hidle⟩ := h.threads i _ hcur
      refine ⟨t, ht, h.shows, by simpa using h.length, forall_thread_set ⟨r, hr, ?_⟩
        fun j q _ => h.threads j q⟩
      exact code_follows hidle (hjob job rfl)
    · rename_i l en up k hcur
      split at hn
      case isFalse => cases hn
      rename_i hen
      cases hn
      obtain ⟨r, hr, hfollows⟩ := h.threads i _ hcur
      obtain ⟨-, t', r', hmoves, hshows, hrest⟩ := hfollows e _ t hen h.shows
      obtain ⟨u, hu, hclient, hfresh, hroutines⟩ := hmoves.reachable ht hr
      refine ⟨u, hu, ⟨by rw [hclient, hshows.client], hfresh.trans hshows.fresh⟩,
        by simpa [hroutines] using h.length, forall_thread_set ⟨r', ?_, hrest⟩
          fun j q hij hq => ?_⟩
      · rw [Sys.At, hroutines]
        exact at_set_self hr
      · obtain ⟨r, hr, hfollows⟩ := h.threads j q hq
        refine ⟨r, ?_, hfollows⟩
        rw [Sys.At, hroutines, List.getElem?_set_ne hij]
        exact hr

/-- Whatever state the proxy gets into, the transports of each client are in a
state that the routines can bring about. -/
theorem machine_follows {p : Pool Shared Env Label Job} (h : (system args).machine.Reachable p)
    (c : Nat) : ∃ t, machine.Reachable t ∧ Mirrors c p t := by
  induction (h : TSys.ReachableVia _ _ p) with
  | step _ _ hn ih =>
    obtain ⟨t, ht, hm⟩ := ih
    exact hm.next ht hn
  | init h0 =>
    obtain ⟨hshared, hthreads⟩ := h0
    refine ⟨_, spawned_reachable args (system args).start.tail.length, ?_, ?_, ?_⟩
    · rw [show _ = started args from hshared]
      exact ⟨rfl, rfl⟩
    · rw [hthreads]
      simp [system]
    · intro i q hq
      rw [hthreads, List.getElem?_map, Option.map_eq_some_iff] at hq
      obtain ⟨job, hjob, rfl⟩ := hq
      have hi := (List.getElem?_eq_some_iff.mp hjob).1
      refine ⟨.done, ?_, code_follows rfl fun hreads => ?_⟩
      · rw [Sys.At, List.getElem?_replicate, if_pos]
        simpa [system] using hi
      · -- only the first goroutine of the proxy reads
        cases i with
        | zero => rfl
        | succ i =>
          have hmem := List.mem_of_getElem? ((List.getElem?_cons_succ ..).symm.trans hjob)
          split at hmem
          · obtain ⟨socket, -, rfl⟩ := List.mem_map.mp hmem
            cases hreads
          · cases hmem

end Tsshd.Proxy.Transport

/-
**The LDAP dissector and the password of a bind request.**

A simple bind carries the password in the clear, as the value of the last element of the request.
The dissector reads the head of that element, sees that it is not a SASL bind, and leaves it: what it
writes does not depend on the password.

Main definitions:

* `Message`, `SimpleBind`, `Requests` — LDAP messages, a simple bind among others.

Main results:

* `ldap_requests_eq` — **the LDAP dissector does the same whatever the password is**;
* `identify_requests_eq` — and so does application dispatch on the LDAP port.
-/

import PcapRacer.AppDispatch
import PcapRacer.AppDirectory
import PcapRacer.BerElements

set_option relaxedAutoImplicit false
set_option autoImplicit false

namespace PcapRacer

namespace AppDirectory

open Sink (layer)

/-! ### Messages -/

/-- An LDAP message: a number, an operation, and what may stand behind it. -/
structure Message where
  frame : Ber.Element 0x30
  messageId : Ber.Element 0x02
  opId : UInt8
  op : Ber.Element opId
  controls : Bytes
  val_eq : frame.val = messageId.bytes ++ (op.bytes ++ controls)
  lowTag : opId &&& 0x1f ≠ 0x1f
  /-- A bind request starts with a version. -/
  version : opId &&& 0x1f = 0 → ∃ (v : Ber.Element 0x02) (rest : Bytes), op.val = v.bytes ++ rest

/-- What the dissector does with an operation. -/
def operation (op : Ber.Tlv) : M Unit := do
  if op.cls ≠ Ber.classApplication then
    return
  col fun c => { c with ldapOperation := some (ldapOpName op.tag) }
  let tag := op.tag.toNat
  if tag = 0 then
    ldapBind op.cur
  else if tag = 3 then
    ldapSearch op.cur
  else if tag ∈ [1, 5, 7, 9, 11, 13, 15, 24] then
    ldapResult op.cur
  else if tag = 4 then
    if let .ok dn := (Ber.read op.cur).1 then
      let dn ← fieldText dn 512
      col fun c => { c with ldapDn := dn }

/-- The dissector takes the first message, whatever stands behind it. -/
theorem ldap_message (m : Message) (later : Bytes) :
    ldap (m.frame.bytes ++ later) = (do
      layer .ldap
      col fun c => { c with ldapMessageId := m.messageId.tlv.asU64.map UInt64.toUInt32 }
      operation m.op.tlv) := by
  obtain ⟨c₁, hframe, -⟩ := Ber.read_element (c := Cur.new (m.frame.bytes ++ later)) m.frame
    (by decide) rfl
  obtain ⟨c₂, hid, hrest⟩ := Ber.read_element (c := m.frame.tlv.cur) m.messageId (by decide)
    m.val_eq
  obtain ⟨c₃, hop, -⟩ := Ber.read_element m.op m.lowTag hrest
  have hgo : ∀ {α β : Type} (a : α) (f : α → M β),
      ((liftM (Except.ok a : Except DissectError α) : M α) >>= f) = f a := fun _ _ => rfl
  unfold ldap
  rw [hframe]
  refine congrArg (layer .ldap >>= ·) (funext fun _ => ?_)
  have hsequence : ¬ (m.frame.tlv.constructed = false ∨ m.frame.tlv.tag ≠ Ber.tagSequence) := by
    change ¬ (decide ((0x30 : UInt8) &&& 0x20 ≠ 0) = false ∨ (0x30 : UInt8) &&& 0x1f ≠ 0x10)
    decide
  rw [hgo, if_neg hsequence, hid]
  dsimp only
  rw [hgo, hop]
  rfl

/-! ### The dissector takes every message -/

section Accepts

variable {σ α β : Type}

/-- The dissector never gives up. -/
def Accepts (d : Dissect σ α) : Prop := ∀ s e s', d.exec s ≠ .ok (.error e, s')

theorem accepts_pure (a : α) : Accepts (pure a : Dissect σ α) := fun _ _ _ h => by cases h

theorem accepts_bind {d : Dissect σ α} {f : α → Dissect σ β} (hd : Accepts d)
    (hf : ∀ a, Accepts (f a)) : Accepts (d >>= f) := by
  intro s e s' h
  rw [exec_bind_eq_ok] at h
  obtain ⟨a, s₁, -, h⟩ | ⟨e', h, -⟩ := h
  · exact hf a s₁ e s' h
  · exact hd s e' s' h

theorem accepts_liftPanic (x : Except Panic α) : Accepts (liftM x : Dissect σ α) := by
  intro s e s' h
  rw [exec_liftPanic] at h
  cases x <;> cases h

theorem accepts_ite {p : Prop} [Decidable p] {d d' : Dissect σ α} (hd : Accepts d)
    (hd' : Accepts d') : Accepts (if p then d else d') := by
  split
  · exact hd
  · exact hd'

end Accepts

theorem accepts_col (f : DirectoryCols → DirectoryCols) : Accepts (col f : M Unit) :=
  fun _ _ _ h => by cases h

theorem accepts_layer (l : Layer) : Accepts (layer l : M Unit) := fun _ _ _ h => by cases h

theorem accepts_ldapBind {o : Cur} {v : Ber.Element 0x02} {rest : Bytes}
    (h : o.rest = v.bytes ++ rest) : Accepts (ldapBind o) := by
  obtain ⟨c, hv, -⟩ := Ber.read_element v (by decide) h
  unfold ldapBind
  rw [hv]
  refine accepts_bind (accepts_pure _) fun _ => ?_
  repeat' with_reducible first
    | intro _ | exact accepts_pure _ | exact accepts_col _ | exact accepts_liftPanic _
    | apply accepts_bind | apply accepts_ite | split

theorem accepts_ldapSearch (o : Cur) : Accepts (ldapSearch o) := by
  unfold ldapSearch
  repeat' with_reducible first
    | intro _ | exact accepts_pure _ | exact accepts_col _ | exact accepts_liftPanic _
    | apply accepts_bind | apply accepts_ite | split

theorem accepts_ldapResult (o : Cur) : Accepts (ldapResult o) := by
  unfold ldapResult
  repeat' with_reducible first
    | intro _ | exact accepts_pure _ | exact accepts_col _ | exact accepts_liftPanic _
    | apply accepts_bind | apply accepts_ite | split

/-- The dissector never gives up on a message. -/
theorem accepts_ldap (m : Message) (later : Bytes) : Accepts (ldap (m.frame.bytes ++ later)) := by
  rw [ldap_message]
  refine accepts_bind (accepts_layer _) fun _ => accepts_bind (accepts_col _) fun _ => ?_
  unfold operation
  dsimp only
  refine accepts_ite (accepts_pure _) (accepts_bind (accepts_col _) fun _ => ?_)
  split
  · next htag =>
    obtain ⟨v, rest, hval⟩ := m.version (UInt8.toNat_inj.mp htag)
    exact accepts_ldapBind (o := m.op.tlv.cur) hval
  · repeat' with_reducible first
      | intro _ | exact accepts_ldapSearch _ | exact accepts_ldapResult _ | exact accepts_pure _
      | exact accepts_col _ | exact accepts_liftPanic _ | apply accepts_bind | apply accepts_ite
      | split

/-! ### Simple binds -/

/-- A bind request with a simple authentication, but for the password. -/
structure SimpleBind where
  messageId : Ber.Element 0x02
  version : Ber.Element 0x02
  name : Ber.Element 0x04
  /-- The number of octets of the password. -/
  size : ℕ
  pwLen : Bytes
  /-- What stands behind the authentication, and behind the request. -/
  extra : Bytes
  controls : Bytes
  opLen : Bytes
  frameLen : Bytes
  pw_isLength : Ber.IsLength size pwLen
  op_isLength : Ber.IsLength (version.bytes.length + (name.bytes.length +
    (1 + (pwLen.length + size) + extra.length))) opLen
  frame_isLength : Ber.IsLength (messageId.bytes.length + (1 + (opLen.length +
    (version.bytes.length + (name.bytes.length + (1 + (pwLen.length + size) + extra.length)))) +
    controls.length)) frameLen

namespace SimpleBind

variable (b : SimpleBind)

abbrev Password : Type := { pw : Bytes // pw.length = b.size }

variable {b} (pw : b.Password)

/-- The authentication: context tag 0, with the password as its value. -/
def auth : Ber.Element 0x80 where
  len := b.pwLen
  val := pw.1
  isLength := pw.2.symm ▸ b.pw_isLength

theorem length_auth : (auth pw).bytes.length = 1 + (b.pwLen.length + b.size) := by
  simp only [Ber.Element.bytes, auth, List.length_cons, List.length_append, pw.2]
  omega

/-- The bind request. -/
def op : Ber.Element 0x60 where
  len := b.opLen
  val := b.version.bytes ++ (b.name.bytes ++ ((auth pw).bytes ++ b.extra))
  isLength := by
    simp only [List.length_append, length_auth]
    exact b.op_isLength

theorem length_op : (op pw).bytes.length = 1 + (b.opLen.length + (b.version.bytes.length +
    (b.name.bytes.length + (1 + (b.pwLen.length + b.size) + b.extra.length)))) := by
  simp only [Ber.Element.bytes, op, List.length_cons, List.length_append, pw.2, auth]
  omega

/-- The message. -/
def message : Message where
  frame :=
    { len := b.frameLen
      val := b.messageId.bytes ++ ((op pw).bytes ++ b.controls)
      isLength := by
        simp only [List.length_append, length_op]
        exact b.frame_isLength }
  messageId := b.messageId
  opId := 0x60
  op := op pw
  controls := b.controls
  val_eq := rfl
  lowTag := by decide
  version _ := ⟨b.version, _, rfl⟩

/-- The bytes before the password, and behind it. -/
def before : Bytes :=
  0x30 :: (b.frameLen ++ (b.messageId.bytes ++ (0x60 :: (b.opLen ++ (b.version.bytes ++
    (b.name.bytes ++ (0x80 :: b.pwLen)))))))

def after : Bytes := b.extra ++ b.controls

theorem bytes_message : (message pw).frame.bytes = b.before ++ (pw.1 ++ b.after) := by
  simp only [Ber.Element.bytes, message, op, auth, before, after, List.append_assoc,
    List.cons_append]

/-- What the dissector reads of a bind request. -/
theorem reads : ∃ c₁ c₂, Ber.read (op pw).tlv.cur = (.ok b.version.tlv, c₁) ∧
    Ber.read c₁ = (.ok b.name.tlv, c₂) ∧ (Ber.read c₂).1 = .ok (auth pw).tlv := by
  obtain ⟨c₁, hversion, h₁⟩ := Ber.read_element (c := (op pw).tlv.cur) b.version (by decide) rfl
  obtain ⟨c₂, hname, h₂⟩ := Ber.read_element b.name (by decide) h₁
  obtain ⟨c₃, hauth, -⟩ := Ber.read_element (auth pw) (by decide) h₂
  exact ⟨c₁, c₂, hversion, hname, congrArg Prod.fst hauth⟩

/-- **The dissector does not look at the password of a simple bind.** -/
theorem ldapBind_eq (pw' : b.Password) :
    ldapBind (op pw).tlv.cur = ldapBind (op pw').tlv.cur := by
  -- a context tag 0 is not a SASL bind
  have hsimple : ∀ q : b.Password,
      ((auth q).tlv.cls = Ber.classContext ∧ (auth q).tlv.tag = 3) = False := by
    intro q
    change ((0x80 : UInt8) >>> 6 = 2 ∧ (0x80 : UInt8) &&& 0x1f = 3) = False
    decide
  obtain ⟨c₁, c₂, hversion, hname, hauth⟩ := reads pw
  obtain ⟨c₁', c₂', hversion', hname', hauth'⟩ := reads pw'
  unfold ldapBind
  simp only [hversion, hname, hauth, hversion', hname', hauth', hsimple, if_false]

end SimpleBind

/-- What is done with a bind request. -/
theorem operation_simpleBind {b : SimpleBind} (pw pw' : b.Password) :
    operation (SimpleBind.op pw).tlv = operation (SimpleBind.op pw').tlv := by
  have hbind : ∀ q : b.Password, operation (SimpleBind.op q).tlv = (do
      col fun c => { c with ldapOperation := some (ldapOpName 0) }
      ldapBind (SimpleBind.op q).tlv.cur) := fun _ => rfl
  rw [hbind, hbind, SimpleBind.ldapBind_eq pw pw']

/-! ### Requests in one stretch -/

/-- A simple bind among other messages. -/
structure Requests where
  /-- The messages before it. -/
  earlier : List Message
  bind : SimpleBind
  later : Bytes

namespace Requests

variable (r : Requests)

def before : Bytes := (r.earlier.map (·.frame.bytes)).flatten ++ r.bind.before

def after : Bytes := r.bind.after ++ r.later

variable {r} (pw : r.bind.Password)

def payload : Bytes :=
  (r.earlier.map (·.frame.bytes)).flatten ++ ((SimpleBind.message pw).frame.bytes ++ r.later)

theorem payload_eq : payload pw = r.before ++ (pw.1 ++ r.after) := by
  simp only [payload, before, after, SimpleBind.bytes_message, List.append_assoc]

theorem length_payload : (payload pw).length = r.before.length + (r.bind.size + r.after.length) := by
  rw [payload_eq, List.length_append, List.length_append, pw.2]

/-- The same requests behind more messages. -/
def behind (ms : List Message) (r : Requests) : Requests := { r with earlier := ms ++ r.earlier }

theorem payload_behind (ms : List Message) :
    payload (r := behind ms r) pw = (ms.map (·.frame.bytes)).flatten ++ payload pw := by
  simp only [payload, behind, List.map_append, List.flatten_append, List.append_assoc]

theorem payload_ne_nil : payload pw ≠ [] := by
  rw [payload_eq]
  refine List.append_ne_nil_of_left_ne_nil ?_ _
  exact List.append_ne_nil_of_right_ne_nil _ (List.cons_ne_nil _ _)

/-- The messages begin with one of their own, or with the bind request. -/
theorem payload_cases : (∃ (m : Message) (ms : List Message), r.earlier = m :: ms ∧
      ∀ q : r.bind.Password, ∃ rest, payload q = m.frame.bytes ++ rest) ∨
    r.earlier = [] ∧
      ∀ q : r.bind.Password, payload q = (SimpleBind.message q).frame.bytes ++ r.later := by
  cases hms : r.earlier with
  | nil =>
      refine .inr ⟨rfl, fun q => ?_⟩
      rw [payload, hms]
      rfl
  | cons m ms =>
      refine .inl ⟨m, ms, rfl, fun q => ?_⟩
      rw [payload, hms, List.map_cons, List.flatten_cons, List.append_assoc]
      exact ⟨_, rfl⟩

/-- The dissector never gives up on a stretch of messages. -/
theorem accepts_ldap : Accepts (ldap (payload pw)) := by
  obtain ⟨m, ms, -, hm⟩ | ⟨-, hbind⟩ := payload_cases (r := r)
  · obtain ⟨rest, hrest⟩ := hm pw
    rw [hrest]
    exact AppDirectory.accepts_ldap m rest
  · rw [hbind]
    exact AppDirectory.accepts_ldap (SimpleBind.message pw) r.later

/-- **The LDAP dissector does the same whatever the password is.** -/
theorem ldap_eq (pw' : r.bind.Password) : ldap (payload pw) = ldap (payload pw') := by
  obtain ⟨m, ms, -, hm⟩ | ⟨-, hbind⟩ := payload_cases (r := r)
  · obtain ⟨rest, hrest⟩ := hm pw
    obtain ⟨rest', hrest'⟩ := hm pw'
    rw [hrest, hrest', ldap_message, ldap_message]
  · rw [hbind, hbind, ldap_message, ldap_message]
    have hop : operation (SimpleBind.message pw).op.tlv = operation (SimpleBind.message pw').op.tlv :=
      operation_simpleBind pw pw'
    rw [hop]
    rfl

end Requests

end AppDirectory

/-! ### Application dispatch -/

namespace App

open AppDirectory (Requests Accepts)

/-- The TCP ports that a protocol is registered for. -/
def tcpPorts : List ℕ :=
  [20, 21, 22, 23, 25, 587, 465, 53, 5355, 80, 8080, 8000, 8888, 3128, 88, 102, 110, 139, 143, 993,
    389, 3268, 443, 8443, 445, 502, 1883, 8883, 2404, 3389, 5060, 5061, 5900, 5901, 6660, 6661, 6662,
    6663, 6664, 6665, 6666, 6667, 6668, 6669, 6697, 20000, 44818]

/-- One port is the LDAP port; the source port counts when the destination port is no other
service. -/
def OnLdapPort (sport dport : UInt16) : Prop :=
  dport.toNat = 389 ∨ sport.toNat = 389 ∧ dport.toNat ∉ tcpPorts

/-- One attempt with a dissector that does not give up. -/
theorem tryDissector_of_accepts {d : M Unit} (h : Accepts d) (s : Sink AppCols) :
    tryDissector (some d) s = (d.exec s).map fun r => (true, r.2) := by
  unfold tryDissector
  dsimp only
  rcases hx : d.exec s with q | ⟨e | a, s'⟩
  · rfl
  · exact absurd hx (h s e s')
  · rfl

/-- A dissector that does not give up settles the matter. -/
theorem orElse_of_accepts {d : M Unit} (h : Accepts d) (s : Sink AppCols) (d' : Option (M Unit)) :
    orElse (tryDissector (some d) s) d' = tryDissector (some d) s := by
  rw [tryDissector_of_accepts h]
  cases d.exec s <;> rfl

section Identify

variable [Hashes]

theorem byTcpPort_eq_none {port : UInt16} (h : port.toNat ∉ tcpPorts) (payload : Bytes)
    (server : Bool) : byTcpPort payload port server = none := by
  unfold byTcpPort
  split
  all_goals first
    | rfl
    | next hport => exact absurd (hport ▸ h) (by decide)

/-- On the LDAP port, dispatch is the LDAP dissector when that does not give up. -/
theorem identify_ldap {payload : Bytes} {sport dport : UInt16} (hport : OnLdapPort sport dport)
    (h : Accepts (AppDirectory.ldap payload)) (s : Sink AppCols) :
    identify payload sport dport true s =
      ((directory (AppDirectory.ldap payload)).exec s).map Prod.snd := by
  have hldap : ∀ {port : UInt16} (server : Bool), port.toNat = 389 →
      byPort payload port true server = some (directory (AppDirectory.ldap payload)) := by
    intro port server hnat
    rw [byPort, if_pos rfl, byTcpPort, hnat]
    rfl
  have hdir : Accepts (directory (AppDirectory.ldap payload)) := by
    intro s e s' hx
    obtain ⟨r, hr, heq⟩ := map_eq_ok_iff.mp hx
    exact h _ _ _ (hr.trans (congrArg (fun x => Except.ok (x, r.2)) (congrArg Prod.fst heq)))
  have hfirst : ∀ d, ((orElse (tryDissector (some (directory (AppDirectory.ldap payload))) s) d).map
      Prod.snd) = ((directory (AppDirectory.ldap payload)).exec s).map Prod.snd := by
    intro d
    rw [orElse_of_accepts hdir, tryDissector_of_accepts hdir]
    cases (directory (AppDirectory.ldap payload)).exec s <;> rfl
  unfold identify
  dsimp only
  obtain hd | ⟨hs, hd⟩ := hport
  · rw [hldap false hd, orElse_of_accepts hdir]
    exact hfirst _
  · have hne : sport ≠ dport := by
      rintro rfl
      exact hd (hs ▸ by decide)
    have hnone : byPort payload dport true false = none := byTcpPort_eq_none hd payload false
    have hskip : orElse (tryDissector none s) (some (directory (AppDirectory.ldap payload))) =
        tryDissector (some (directory (AppDirectory.ldap payload))) s := rfl
    rw [hnone, if_neg hne, hldap true hs, hskip]
    exact hfirst _

/-- **Application dispatch on the LDAP port does the same whatever the password is.** -/
theorem identify_requests {r : Requests} (pw pw' : r.bind.Password) {sport dport : UInt16}
    (hport : OnLdapPort sport dport) (s : Sink AppCols) :
    identify (Requests.payload pw) sport dport true s =
      identify (Requests.payload pw') sport dport true s := by
  rw [identify_ldap hport (Requests.accepts_ldap pw), identify_ldap hport (Requests.accepts_ldap pw'),
    Requests.ldap_eq pw pw']

end Identify

end App

end PcapRacer

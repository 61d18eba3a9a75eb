import Mathlib
import Trench.Wire.IpAddress

set_option autoImplicit false

/- Which address a request came from, behind proxies that say so in a header. -/
namespace Trench.Security

open Wire

/-- `_nets`. -/
structure TrustedProxies where
  nets : List IpNetwork

namespace TrustedProxies

/-- `replace`: an entry that is not a network is left out. -/
def create (entries : List Text) : TrustedProxies := ⟨entries.filterMap fun entry => ipNetwork (Name.strip entry)⟩

/-- `__contains__`. -/
def holds (trusted : TrustedProxies) (ip : Text) : Bool :=
  match ipAddress ip with
  | none => false
  | some addr => trusted.nets.any fun net => net.contains addr

end TrustedProxies

/-- The peer's address, the lines of `X-Forwarded-For` in their order, and the application's trusted
networks. -/
structure Request where
  peer : Option Text
  forwardedFor : List Text
  app : Option TrustedProxies

/-- `peer_ip`. -/
def peerIp (request : Request) : Text := request.peer.getD ['?']

/-- The walk over the entries of a line, the last one first. -/
def walk (trusted : TrustedProxies) (peer : Text) : List Text → Text
  | [] => peer
  | raw :: rest =>
      let candidate := Name.strip raw
      if candidate = [] then walk trusted peer rest
      else
        match ipAddress candidate with
        | none => peer
        | some _ => if trusted.holds candidate then walk trusted peer rest else candidate

/-- `client_ip`. -/
def clientIp (request : Request) (trusted : Option TrustedProxies) : Text :=
  let peer := peerIp request
  match trusted.or request.app with
  | none => peer
  | some trusted =>
      if trusted.nets = [] ∨ trusted.holds peer = false then peer
      else
        -- `headers.get` returns the first line of a name.
        match request.forwardedFor.head? with
        | none => peer
        | some xff => if xff = [] then peer else walk trusted peer (xff.splitOn ',').reverse

/-! ### A chain of proxies -/

/-- An address as a proxy writes it: one entry of the header, which reads as an address. -/
structure Written where
  text : Text
  whole : ',' ∉ text
  bare : Name.strip text = text
  reads : (ipAddress text).isSome = true

/-- How a proxy adds the address it accepted the connection from. -/
inductive Convention where
  /-- At the end of the last line. -/
  | appends
  /-- In a line of its own. -/
  | adds
  deriving DecidableEq

/-- A proxy of ours. -/
structure Hop (trusted : TrustedProxies) where
  address : Written
  ours : trusted.holds address.text = true
  how : Convention

/-- The lines behind a proxy that accepted the connection from an address. -/
def forward (how : Convention) (seen : Text) (lines : List Text) : List Text :=
  match how, lines.getLast? with
  | .appends, some last => lines.dropLast ++ [last ++ ',' :: ' ' :: seen]
  | _, _ => lines ++ [seen]

/-- Through the proxies, the outermost first: the address the last connection comes from, and the
lines that arrive. -/
def relay {trusted : TrustedProxies} : Text → List Text → List (Hop trusted) → Text × List Text
  | seen, lines, [] => (seen, lines)
  | seen, lines, hop :: rest => relay hop.address.text (forward hop.how seen lines) rest

theorem forward_nil (how : Convention) (seen : Text) : forward how seen [] = [seen] := by cases how <;> rfl

/-- The first of several lines stays as it is. -/
theorem forward_cons_cons (how : Convention) (seen line other : Text) (others : List Text) :
    ∃ next more, forward how seen (line :: other :: others) = line :: next :: more := by
  cases how with
  | adds => exact ⟨other, others ++ [seen], rfl⟩
  | appends =>
      cases others with
      | nil => exact ⟨_, [], rfl⟩
      | cons next more => exact ⟨other, _, rfl⟩

/-- The request at the end of a chain. -/
def arriving {trusted : TrustedProxies} (client : Text) (sent : List Text) (chain : List (Hop trusted)) : Request :=
  let (peer, lines) := relay client sent chain
  ⟨some peer, lines, some trusted⟩

/-! ### What the walk comes to -/

section

variable {trusted : TrustedProxies} {peer : Text}

theorem Written.text_ne_nil (w : Written) : w.text ≠ [] := by
  intro none
  have reads := w.reads
  rw [none, ipAddress_nil] at reads
  cases reads

theorem strip_space (s : Text) : Name.strip (' ' :: s) = Name.strip s := by
  rw [Name.strip, Name.strip, List.dropWhile_cons_of_pos (by decide)]

/-- An address of ours is walked past, and any other is where the walk ends. -/
theorem walk_written (w : Written) (raw : Text) (entry : Name.strip raw = w.text) (rest : List Text) :
    walk trusted peer (raw :: rest) = if trusted.holds w.text then walk trusted peer rest else w.text := by
  obtain ⟨addr, reads⟩ := Option.isSome_iff_exists.mp w.reads
  rw [walk, entry, if_neg w.text_ne_nil, reads]

/-- The walk over this line ends at the client, whoever the peer is. -/
def Genuine (trusted : TrustedProxies) (client line : Text) : Prop :=
  line ≠ [] ∧ ∀ peer, walk trusted peer (line.splitOn ',').reverse = client

theorem reverse_splitOn_appended (line : Text) (w : Written) :
    ((line ++ ',' :: ' ' :: w.text).splitOn ',').reverse = (' ' :: w.text) :: (line.splitOn ',').reverse := by
  have whole : ',' ∉ ' ' :: w.text := List.not_mem_cons_of_ne_of_not_mem (by decide) w.whole
  rw [List.splitOn_append_cons_self, List.splitOn_eq_singleton whole, List.reverse_append]
  rfl

theorem walk_appended (line : Text) (w : Written) :
    walk trusted peer ((line ++ ',' :: ' ' :: w.text).splitOn ',').reverse =
      if trusted.holds w.text then walk trusted peer (line.splitOn ',').reverse else w.text := by
  rw [reverse_splitOn_appended, walk_written w _ ((strip_space w.text).trans w.bare)]

theorem genuine_alone {client : Written} (stranger : trusted.holds client.text = false) :
    Genuine trusted client.text client.text := by
  refine ⟨client.text_ne_nil, fun peer => ?_⟩
  rw [List.splitOn_eq_singleton client.whole]
  change walk trusted peer [client.text] = _
  rw [walk_written client _ client.bare, stranger]
  rfl

theorem genuine_appended {client : Written} (stranger : trusted.holds client.text = false) (line : Text) :
    Genuine trusted client.text (line ++ ',' :: ' ' :: client.text) := by
  refine ⟨List.append_ne_nil_of_right_ne_nil _ (List.cons_ne_nil _ _), fun peer => ?_⟩
  rw [walk_appended, stranger]
  rfl

/-- A proxy of ours in front of another leaves the line genuine. -/
theorem Genuine.appended {client line : Text} (genuine : Genuine trusted client line) (hop : Hop trusted) :
    Genuine trusted client (line ++ ',' :: ' ' :: hop.address.text) := by
  refine ⟨List.append_ne_nil_of_left_ne_nil genuine.1 _, fun peer => ?_⟩
  rw [walk_appended, if_pos hop.ours]
  exact genuine.2 peer

/-- Through proxies of ours, a genuine first line stays one. -/
theorem genuine_relay {client line : Text} (genuine : Genuine trusted client line) (others : List Text)
    (hop : Hop trusted) (chain : List (Hop trusted)) :
    ∃ line', (relay hop.address.text (line :: others) chain).2.head? = some line' ∧
      Genuine trusted client line' := by
  induction chain generalizing line others hop with
  | nil => exact ⟨line, rfl, genuine⟩
  | cons next chain ih =>
      rw [relay]
      cases others with
      | nil =>
          cases next.how with
          | adds => exact ih genuine [hop.address.text] next
          | appends => exact ih (genuine.appended hop) [] next
      | cons other others =>
          obtain ⟨second, more, same⟩ := forward_cons_cons next.how hop.address.text line other others
          rw [same]
          exact ih genuine _ next

/-- A line with another behind it stays as it is. -/
theorem head?_relay_of_cons (line other : Text) (others : List Text) (seen : Text) (chain : List (Hop trusted)) :
    (relay seen (line :: other :: others) chain).2.head? = some line := by
  induction chain generalizing other others seen with
  | nil => rfl
  | cons hop chain ih =>
      obtain ⟨next, more, same⟩ := forward_cons_cons hop.how seen line other others
      rw [relay, same]
      exact ih next more hop.address.text

theorem holds_relay (hop : Hop trusted) (lines : List Text) (chain : List (Hop trusted)) :
    trusted.holds (relay hop.address.text lines chain).1 = true := by
  induction chain generalizing hop lines with
  | nil => exact hop.ours
  | cons next chain ih => exact ih next _

theorem nets_ne_nil (hop : Hop trusted) : trusted.nets ≠ [] := by
  intro none
  have ours := hop.ours
  rw [TrustedProxies.holds, none] at ours
  split at ours <;> cases ours

/-- At the end of a chain of our proxies, the first line that arrives decides. -/
theorem clientIp_arriving (client : Text) (sent : List Text) (hop : Hop trusted) (chain : List (Hop trusted)) :
    clientIp (arriving client sent (hop :: chain)) none =
      match (relay client sent (hop :: chain)).2.head? with
      | none => (relay client sent (hop :: chain)).1
      | some xff => if xff = [] then (relay client sent (hop :: chain)).1
          else walk trusted (relay client sent (hop :: chain)).1 (xff.splitOn ',').reverse := by
  have ours : trusted.holds (relay client sent (hop :: chain)).1 = true := holds_relay hop _ chain
  rw [clientIp, arriving]
  exact if_neg (not_or.mpr ⟨nets_ne_nil hop, by
    change ¬trusted.holds (relay client sent (hop :: chain)).1 = false
    rw [ours]
    exact Bool.true_eq_false_eq_False⟩)

theorem clientIp_of_genuine {client line : Text} {sent : List Text} {hop : Hop trusted} {chain : List (Hop trusted)}
    (first : (relay client sent (hop :: chain)).2.head? = some line) (genuine : Genuine trusted client line) :
    clientIp (arriving client sent (hop :: chain)) none = client := by
  rw [clientIp_arriving, first]
  dsimp only
  rw [if_neg genuine.1]
  exact genuine.2 _

end

/-- What a client has sent cannot change whom it is taken for, exactly where it has sent no line or the
outermost proxy appends to the only one; and a peer that is not trusted is the client. -/
theorem clientIp_iff (trusted : TrustedProxies) (client : Written) (stranger : trusted.holds client.text = false)
    (outermost : Hop trusted) (chain : List (Hop trusted)) (lines : Nat) :
    ((∀ sent : List Text, sent.length = lines →
        clientIp (arriving client.text sent (outermost :: chain)) none = client.text) ↔
      lines = 0 ∨ (lines = 1 ∧ outermost.how = .appends)) ∧
    ∀ request : Request, (request.app.any fun nets => nets.holds (peerIp request)) = false →
      clientIp request none = peerIp request := by
  refine ⟨⟨fun all => ?_, ?_⟩, ?_⟩
  · by_contra other
    rw [not_or, not_and] at other
    -- An empty line in front sends the reader back to the peer.
    obtain ⟨more, rfl⟩ := Nat.exists_eq_succ_of_ne_zero other.1
    have forged := all (List.replicate (more + 1) []) (List.length_replicate ..)
    have first : (relay client.text (List.replicate (more + 1) []) (outermost :: chain)).2.head? = some [] := by
      rw [relay]
      cases more with
      | zero =>
          cases how : outermost.how with
          | adds => exact head?_relay_of_cons [] client.text [] _ chain
          | appends => exact absurd how (other.2 rfl)
      | succ more =>
          obtain ⟨next, rest, same⟩ := forward_cons_cons outermost.how client.text [] [] (List.replicate more [])
          rw [List.replicate_succ, List.replicate_succ, same]
          exact head?_relay_of_cons [] next rest _ chain
    rw [clientIp_arriving, first] at forged
    have ours : trusted.holds (relay client.text (List.replicate (more + 1) []) (outermost :: chain)).1 = true :=
      holds_relay outermost _ chain
    dsimp only at forged
    rw [if_pos rfl] at forged
    rw [forged, stranger] at ours
    cases ours
  · rintro (rfl | ⟨rfl, how⟩) sent count
    · obtain rfl := List.length_eq_zero_iff.mp count
      obtain ⟨line, first, genuine⟩ := genuine_relay (genuine_alone stranger) [] outermost chain
      refine clientIp_of_genuine ?_ genuine
      rw [relay, forward_nil]
      exact first
    · obtain ⟨forged, rfl⟩ := List.length_eq_one_iff.mp count
      obtain ⟨line, first, genuine⟩ := genuine_relay (genuine_appended stranger forged) [] outermost chain
      refine clientIp_of_genuine ?_ genuine
      rw [relay, how]
      exact first
  · intro request apart
    rw [clientIp, Option.none_or]
    cases app : request.app with
    | none => rfl
    | some nets =>
        rw [app] at apart
        exact if_pos (.inr apart)

/-! ### One proxy, and a client that sends a line of its own -/

def stranger : Text := "203.0.113.9".toList

def lan : TrustedProxies := .create ["10.0.0.0/8".toList]

/-- Both addresses are written as the proxies write them, and only the gateway is one. -/
theorem lan_addresses : (',' ∉ stranger ∧ Name.strip stranger = stranger ∧ (ipAddress stranger).isSome = true) ∧
    (',' ∉ "10.0.0.1".toList ∧ Name.strip "10.0.0.1".toList = "10.0.0.1".toList ∧
      (ipAddress "10.0.0.1".toList).isSome = true) ∧
    lan.holds "10.0.0.1".toList = true ∧ lan.holds stranger = false := by decide +kernel

theorem lan_stranger : lan.holds stranger = false := lan_addresses.2.2.2

def client : Written := ⟨stranger, lan_addresses.1.1, lan_addresses.1.2.1, lan_addresses.1.2.2⟩

def gateway (how : Convention) : Hop lan :=
  ⟨⟨"10.0.0.1".toList, lan_addresses.2.1.1, lan_addresses.2.1.2.1, lan_addresses.2.1.2.2⟩, lan_addresses.2.2.1, how⟩

/-- Straight from the client. -/
def direct : Request := ⟨some stranger, ["6.6.6.6".toList], some lan⟩

theorem direct_apart : (direct.app.any fun nets => nets.holds (peerIp direct)) = false := by decide +kernel

theorem clientIp_appending : ((∀ sent : List Text, sent.length = 1 →
        clientIp (arriving client.text sent [gateway .appends]) none = client.text) ↔
      (1 = 0 ∨ (1 = 1 ∧ (gateway .appends).how = .appends))) ∧
    clientIp direct none = peerIp direct := by
  obtain ⟨chained, untrusted⟩ := clientIp_iff lan client lan_stranger (gateway .appends) [] 1
  exact ⟨chained, untrusted direct direct_apart⟩

/-- Behind a proxy that adds a line of its own, the client's line stands in front and decides. -/
theorem clientIp_forged : ¬∀ (trusted : TrustedProxies) (client : Written),
    trusted.holds client.text = false → ∀ (outermost : Hop trusted) (chain : List (Hop trusted))
      (sent : List Text), clientIp (arriving client.text sent (outermost :: chain)) none = client.text := by
  intro all
  have taken := all lan client lan_stranger (gateway .adds) [] ["6.6.6.6".toList]
  exact absurd taken (by decide +kernel)

end Trench.Security

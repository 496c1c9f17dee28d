/-
  NettyStudy.Seria.Subscribe — SubReqClientHandler and SubReqServerHandler, once with
  JBoss Marshalling and once with Protocol Buffers. Both pairs do the same: the client
  writes the requests 0 to 9 when its channel is active, flushed once, and a request -1000
  whenever it has been idle; the server answers each request it reads with a response
  that carries its id. They differ in what requests and responses look like.

  Assumed of the codecs and the network: an object written comes out at the other end as
  it was, and each direction is a `Pipe` of objects. Both clients are the last handler of
  their pipeline, so nothing comes of what they fire on: the JBoss client's
  `fireChannelInactive` after the batch, and `fireChannelRead` for a response. What is
  logged is left out.

  Proved, over every interleaving of the client's and the server's events:
  - `inv`: the responses written are those to the requests read, one each, in order.
  - `sent_eq`: the ids sent are 0 to 9 and then -1000s.
  - `responses_correlate`: the ids of the responses received are a start of the ids sent,
    and all of them when nothing is on its way.
-/

import NettyStudy.Netty.Channel

namespace NettyStudy.Seria

open NettyStudy.Netty

/-! ## The two pairs of handlers -/

/-- What a pair of handlers makes of an id, and reads it back from. -/
structure Pair where
  Req : Type
  Resp : Type
  /-- The client's `subReq`. -/
  subReq : Int32 → Req
  reqId : Req → Int32
  /-- The server's `resp`. -/
  resp : Int32 → Resp
  respId : Resp → Int32
  reqId_subReq : ∀ i, reqId (subReq i) = i
  respId_resp : ∀ i, respId (resp i) = i

namespace Jboss

structure SubscribeReq where
  subReqID : Int32
  userName : String
  productName : String
  phoneNumber : String
  address : String

structure SubscribeResp where
  subReqID : Int32
  respCode : Int32
  desc : String

def SubReqClientHandler.subReq (i : Int32) : SubscribeReq :=
  { userName := "yicj", address := "北京市朝阳区天辰东路奥林匹克公园", phoneNumber := "157xxxxxxxx"
    productName := "Netty for marshalling", subReqID := i }

def SubReqServerHandler.resp (subReqID : Int32) : SubscribeResp :=
  { subReqID := subReqID, respCode := 0
    desc := "Netty book order succeed, 3 days later, sent to the designated address" }

def pair : Pair where
  Req := SubscribeReq
  Resp := SubscribeResp
  subReq := SubReqClientHandler.subReq
  reqId := SubscribeReq.subReqID
  resp := SubReqServerHandler.resp
  respId := SubscribeResp.subReqID
  reqId_subReq _ := rfl
  respId_resp _ := rfl

end Jboss

namespace Protobuf

structure SubscribeReq where
  subReqId : Int32
  userName : String
  productName : String
  address : List String

structure SubscribeResp where
  subReqId : Int32
  respCode : Int32
  desc : String

def SubReqClientHandler.subReq (reqId : Int32) : SubscribeReq :=
  { productName := "Netty Boot", userName := "yicj", subReqId := reqId
    address := ["aaaaaaaaaaaaaaaaaaa", "bbbbbbbbbbbbbbbbbbb", "ccccccccccccccccccc"] }

def SubReqServerHandler.resp (subReqId : Int32) : SubscribeResp :=
  { subReqId := subReqId, respCode := 200, desc := "网上预订成功3天后，发送到指定的地址" }

def pair : Pair where
  Req := SubscribeReq
  Resp := SubscribeResp
  subReq := SubReqClientHandler.subReq
  reqId := SubscribeReq.subReqId
  resp := SubReqServerHandler.resp
  respId := SubscribeResp.subReqId
  reqId_subReq _ := rfl
  respId_resp _ := rfl

end Protobuf

variable (P : Pair)

namespace SubReqClientHandler

/-- `for (int i = 0; i < 10; i++) ctx.write(subReq(i));`, then `ctx.flush()`. -/
def channelActive (ctx : Outbound P.Req) : Outbound P.Req :=
  ((List.range 10).foldl (fun ctx i => ctx.write [P.subReq (Int32.ofNat i)]) ctx).flush

def userEventTriggered (ctx : Outbound P.Req) : UserEvent → Outbound P.Req
  | .idleState => ctx.writeAndFlush [P.subReq (-1000)]
  | .other => ctx

end SubReqClientHandler

def SubReqServerHandler.channelRead (ctx : Outbound P.Resp) (req : P.Req) : Outbound P.Resp :=
  ctx.writeAndFlush [P.resp (P.reqId req)]

/-! ## The system -/

structure St where
  active : Bool
  requests : Outbound P.Req
  responses : Outbound P.Resp

def init : St P := ⟨false, .empty, .empty⟩

inductive Event where
  | active
  | userEvent (evt : UserEvent)
  /-- The server reads at most `n` requests, one after the other. -/
  | serverRead (n : Nat)
  | clientRead (n : Nat)

def step (s : St P) : Event → St P
  | .active =>
    if s.active then s else { s with active := true, requests := SubReqClientHandler.channelActive P s.requests }
  | .userEvent evt =>
    if s.active then { s with requests := SubReqClientHandler.userEventTriggered P s.requests evt } else s
  | .serverRead n =>
    { s with requests := s.requests.take n
             responses := (s.requests.wire.next n).foldl (SubReqServerHandler.channelRead P) s.responses }
  | .clientRead n => { s with responses := s.responses.take n }

inductive Reach : St P → Prop
  | init : Reach (init P)
  | step {s : St P} (e : Event) : Reach s → Reach (step P s e)

variable {P}

/-- The ids of the requests the client has sent. -/
def St.sentIds (s : St P) : List Int32 := s.requests.wire.sent.map P.reqId

/-- The ids of the requests the server has read. -/
def St.readIds (s : St P) : List Int32 := s.requests.wire.received.map P.reqId

/-- The ids of the responses the server has written. -/
def St.writtenIds (s : St P) : List Int32 := s.responses.written.map P.respId

/-- The ids of the responses the client has received. -/
def St.receivedIds (s : St P) : List Int32 := s.responses.wire.received.map P.respId

/-- No message is on its way, and none is queued. -/
structure Quiet (s : St P) : Prop where
  requests : s.requests.wire.transit = []
  unflushed : s.responses.unflushed = []
  responses : s.responses.wire.transit = []

/-! ## The invariants -/

/-- The batch as one write. -/
theorem channelActive_eq (ctx : Outbound P.Req) : SubReqClientHandler.channelActive P ctx =
    ctx.writeAndFlush ((List.range 10).map fun i => P.subReq (Int32.ofNat i)) := by
  rw [SubReqClientHandler.channelActive, Outbound.foldl_write, ← List.map_eq_flatMap, Outbound.writeAndFlush_eq]

/-- Each request read is answered by one response, with its id. -/
theorem written_channelRead (reqs : List P.Req) : ∀ ctx : Outbound P.Resp,
    (reqs.foldl (SubReqServerHandler.channelRead P) ctx).written.map P.respId =
      ctx.written.map P.respId ++ reqs.map P.reqId := by
  induction reqs with
  | nil => intro ctx; simp
  | cons req reqs ih =>
    intro ctx
    rw [List.foldl_cons, ih]
    simp [SubReqServerHandler.channelRead, P.respId_resp]

/-- The responses written are those to the requests read. -/
def Answers (s : St P) : Prop := s.writtenIds = s.readIds

theorem step_answers (s : St P) (e : Event) (h : Answers s) : Answers (step P s e) := by
  unfold Answers St.writtenIds St.readIds at h ⊢
  cases e with
  | active =>
    rw [step]
    split
    · exact h
    · rw [channelActive_eq]
      exact h
  | userEvent evt =>
    rw [step]
    split
    · cases evt with
      | idleState => exact h
      | other => exact h
    · exact h
  | serverRead n =>
    rw [step, written_channelRead, h]
    simp
  | clientRead n =>
    rw [step, Outbound.written_take]
    exact h

theorem inv {s : St P} (h : Reach P s) : Answers s := by
  induction h with
  | init => rfl
  | step e _ ih => exact step_answers _ e ih

/-- The ids of the batch and of `k` heartbeats. -/
def batch (k : Nat) : List Int32 := (List.range 10).map Int32.ofNat ++ List.replicate k (-1000)

/-- Nothing of the client's is queued; it has sent nothing before its channel is active,
    then the batch and heartbeats. -/
structure Subscribes (s : St P) : Prop where
  unflushed : s.requests.unflushed = []
  inactive : s.active = false → s.sentIds = []
  active : s.active = true → ∃ k, s.sentIds = batch k

theorem step_subscribes (s : St P) (e : Event) (h : Subscribes s) : Subscribes (step P s e) := by
  cases e with
  | active =>
    rw [step]
    split
    · exact h
    · rename_i ha
      have h0 : s.requests.wire.sent.map P.reqId = [] := h.inactive (by simpa using ha)
      refine ⟨rfl, fun hf => Bool.noConfusion hf, fun _ => ⟨0, ?_⟩⟩
      rw [St.sentIds, channelActive_eq, Outbound.sent_writeAndFlush h.unflushed, List.map_append, h0]
      simp [batch, Function.comp_def, P.reqId_subReq]
  | userEvent evt =>
    rw [step]
    split
    · rename_i ha
      cases evt with
      | idleState =>
        obtain ⟨k, hk⟩ : ∃ k, s.requests.wire.sent.map P.reqId = batch k := h.active ha
        refine ⟨rfl, fun hf => Bool.noConfusion (ha.symm.trans hf), fun _ => ⟨k + 1, ?_⟩⟩
        rw [St.sentIds, SubReqClientHandler.userEventTriggered, Outbound.sent_writeAndFlush h.unflushed,
          List.map_append, hk, batch, batch, List.replicate_succ', List.append_assoc]
        simp [P.reqId_subReq]
      | other => exact h
    · exact h
  | serverRead n =>
    have hs : (step P s (.serverRead n)).sentIds = s.sentIds := congrArg (List.map P.reqId) (Pipe.sent_take _ n)
    exact ⟨h.unflushed, fun hf => hs ▸ h.inactive hf, fun ht => hs ▸ h.active ht⟩
  | clientRead n => exact ⟨h.unflushed, h.inactive, h.active⟩

theorem subscribes {s : St P} (h : Reach P s) : Subscribes s := by
  induction h with
  | init => exact ⟨rfl, fun _ => rfl, fun ht => Bool.noConfusion ht⟩
  | step e _ ih => exact step_subscribes _ e ih

/-- The ids an active client has sent are the batch's and then heartbeats'. -/
theorem sent_eq {s : St P} (h : Reach P s) (ha : s.active = true) : ∃ k, s.sentIds = batch k :=
  (subscribes h).active ha

/-! ## Correlation -/

/-- In every state of every run the ids of the responses received are a start of the ids
    sent; the requests read have been answered, each once, in order, with its own id; with
    nothing on its way all ids sent have come back; and the ids an active client has sent
    are 0 to 9 and then -1000s. -/
theorem responses_correlate (P : Pair) (s : St P) (h : Reach P s) :
    s.receivedIds <+: s.sentIds ∧ s.writtenIds = s.readIds ∧ (Quiet s → s.receivedIds = s.sentIds) ∧
      (s.active = true → ∃ k, s.sentIds = batch k) := by
  have hi := inv h
  have hread : s.readIds <+: s.sentIds := s.requests.wire.received_prefix.map P.reqId
  have hreceived : s.receivedIds <+: s.writtenIds := s.responses.received_prefix.map P.respId
  refine ⟨?_, hi, ?_, sent_eq h⟩
  · rw [hi] at hreceived
    exact hreceived.trans hread
  · intro hq
    calc s.receivedIds = s.responses.wire.sent.map P.respId := by rw [← Pipe.received_eq hq.responses]; rfl
      _ = s.writtenIds := by rw [St.writtenIds, Outbound.written_eq hq.unflushed]
      _ = s.readIds := hi
      _ = s.sentIds := by rw [St.sentIds, ← Pipe.received_eq hq.requests]; rfl

section
variable (P)

/-- The batch, a heartbeat behind it, four requests answered and one response received. -/
def overlapping : St P :=
  [Event.active, .serverRead 3, .userEvent .idleState, .clientRead 1, .serverRead 1].foldl (step P) (init P)

theorem reach_overlapping : Reach P (overlapping P) :=
  .step (.serverRead 1) (.step (.clientRead 1) (.step (.userEvent .idleState) (.step (.serverRead 3)
    (.step .active .init))))

/-- What `responses_correlate` says of that run. -/
def Overlaps : Prop :=
  (overlapping P).sentIds = batch 1 ∧ (overlapping P).readIds = [0, 1, 2, 3] ∧ (overlapping P).receivedIds = [0] ∧
    ((overlapping P).receivedIds <+: (overlapping P).sentIds ∧ (overlapping P).writtenIds = (overlapping P).readIds ∧
      (Quiet (overlapping P) → (overlapping P).receivedIds = (overlapping P).sentIds) ∧
      ((overlapping P).active = true → ∃ k, (overlapping P).sentIds = batch k))

/-- With both pairs of handlers. -/
theorem responses_correlate_pairs : Overlaps Jboss.pair ∧ Overlaps Protobuf.pair :=
  ⟨⟨rfl, rfl, rfl, responses_correlate Jboss.pair _ (reach_overlapping _)⟩,
    ⟨rfl, rfl, rfl, responses_correlate Protobuf.pair _ (reach_overlapping _)⟩⟩
end

end NettyStudy.Seria

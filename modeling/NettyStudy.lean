import NettyStudy.Text.Unicode
import NettyStudy.Text.Charset
import NettyStudy.Netty.ArrayAccess
import NettyStudy.Netty.ByteToMessageDecoder
import NettyStudy.Netty.Channel
import NettyStudy.Netty.EventLoop
import NettyStudy.Netty.WebSocketFrame
import NettyStudy.Echo.Message
import NettyStudy.Echo.RoundTrip
import NettyStudy.Echo.Rejection
import NettyStudy.Echo.Reencode
import NettyStudy.Echo.Stream
import NettyStudy.Echo.Connection
import NettyStudy.Echo.Bytes
import NettyStudy.Junit.FixLength
import NettyStudy.Junit.FrameChunk
import NettyStudy.Junit.AbsInteger
import NettyStudy.Http.Server
import NettyStudy.Http.Convert
import NettyStudy.Seria.Subscribe
import NettyStudy.Websocket.Convert
import NettyStudy.Websocket.Handler
import NettyStudy.Websocket.Chat
import NettyStudy.Websocket.Established
import NettyStudy.Websocket.Upgrade
import NettyStudy.Websocket.Delivery
import NettyStudy.Protobuf.Reader
import NettyStudy.Protobuf.CodedStream
import NettyStudy.Protobuf.GeneratedMessage
import NettyStudy.Protobuf.SubscribeReq
import NettyStudy.Protobuf.SubscribeResp
import NettyStudy.Protobuf.Builder
import NettyStudy.Protobuf.BuilderProofs
import NettyStudy.Protobuf.BuilderWorld
import NettyStudy.Protobuf.BuilderRefinement
import NettyStudy.Netty.Framing
import NettyStudy.Protobuf.Varint32Frame
import NettyStudy.Netty.Codec
import NettyStudy.Seria.JbossTransport
import NettyStudy.Seria.ProtobufTransport
import NettyStudy.Echo.Ownership
import NettyStudy.Http.Ownership
import NettyStudy.Websocket.Ownership
import NettyStudy.Echo.Exchange
import NettyStudy.Seria.Placement

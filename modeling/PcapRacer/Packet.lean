/-
**The packet record.**

One packet's extracted features, column by column.  All columns are optional: a column is `some`
only when the corresponding protocol was present and parsed.  The columns are grouped by the part
of the program that writes them, so that a dissector can be given its own columns and no others.

Main definitions:

* `FrameCols`, `LinkCols`, `NetCols`, `TransportCols`, `TunnelCols`, `FlowCols`, `PayloadCols`,
  `ReasmCols` — the columns of the capture record, of the lower layers and of the pipeline;
* `AppCols` — the columns of the application protocols, one group per dissector module;
* `Packet` — the whole record;
* `Layer`, `Layer.name` — the layers a dissector can push on the protocol stack.
-/

import PcapRacer.Text

set_option relaxedAutoImplicit false
set_option autoImplicit false

namespace PcapRacer

/-! ### Capture record, lower layers, pipeline -/

/-- Columns of the capture record and of the stack as a whole. -/
structure FrameCols where
  packetId : Option ℕ := none
  frameNumber : Option ℕ := none
  ts : Option Int := none
  tsEpochNs : Option Int := none
  frameLen : Option UInt32 := none
  capLen : Option UInt32 := none
  ifaceId : Option UInt32 := none
  linkType : Option UInt16 := none
  protoStack : Option Text := none
  highestLayer : Option Text := none
  malformed : Option Bool := none
  panicked : Option Bool := none
  truncated : Option Bool := none
  tunnelDepth : Option UInt8 := none

/-- Link-layer columns. -/
structure LinkCols where
  ethSrc : Option Text := none
  ethDst : Option Text := none
  ethType : Option UInt16 := none
  ethSrcOui : Option Text := none
  ethIsBroadcast : Option Bool := none
  ethIsMulticast : Option Bool := none
  vlanId : Option UInt16 := none
  vlanPcp : Option UInt8 := none
  vlanDei : Option Bool := none
  vlanInnerId : Option UInt16 := none
  mplsLabel : Option UInt32 := none
  mplsTc : Option UInt8 := none
  mplsTtl : Option UInt8 := none
  pppoeSessionId : Option UInt16 := none
  pppProtocol : Option UInt16 := none
  llcDsap : Option UInt8 := none
  llcSsap : Option UInt8 := none
  llcControl : Option UInt8 := none
  snapOui : Option UInt32 := none
  snapPid : Option UInt16 := none
  arpHwType : Option UInt16 := none
  arpProtoType : Option UInt16 := none
  arpOpcode : Option UInt16 := none
  arpOpcodeName : Option Text := none
  arpSenderMac : Option Text := none
  arpSenderIp : Option Text := none
  arpTargetMac : Option Text := none
  arpTargetIp : Option Text := none
  arpIsGratuitous : Option Bool := none
  wlanType : Option UInt8 := none
  wlanSubtype : Option UInt8 := none
  wlanBssid : Option Text := none
  wlanSsid : Option Text := none
  wlanChannel : Option UInt16 := none
  wlanSignalDbm : Option Int := none

/-- Network-layer columns. -/
structure NetCols where
  ipVersion : Option UInt8 := none
  ipSrc : Option Text := none
  ipDst : Option Text := none
  ipSrcIsPrivate : Option Bool := none
  ipDstIsPrivate : Option Bool := none
  ipProto : Option UInt8 := none
  ipProtoName : Option Text := none
  ipTtl : Option UInt8 := none
  ipTos : Option UInt8 := none
  ipDscp : Option UInt8 := none
  ipEcn : Option UInt8 := none
  ipId : Option UInt32 := none
  ipFlagDf : Option Bool := none
  ipFlagMf : Option Bool := none
  ipFragOffset : Option UInt16 := none
  ipHdrLen : Option UInt8 := none
  ipTotalLen : Option UInt32 := none
  ipChecksum : Option UInt16 := none
  ipOptions : Option Text := none
  ip6FlowLabel : Option UInt32 := none
  ip6TrafficClass : Option UInt8 := none
  ip6NextHeader : Option UInt8 := none
  ip6HopLimit : Option UInt8 := none
  ip6PayloadLen : Option UInt16 := none
  ip6ExtHeaders : Option Text := none
  icmpType : Option UInt8 := none
  icmpCode : Option UInt8 := none
  icmpTypeName : Option Text := none
  icmpId : Option UInt16 := none
  icmpSeq : Option UInt16 := none
  icmpGateway : Option Text := none
  icmpMtu : Option UInt16 := none
  icmp6Type : Option UInt8 := none
  icmp6Code : Option UInt8 := none
  icmp6TypeName : Option Text := none
  icmp6NdTarget : Option Text := none
  icmp6NdOptionMac : Option Text := none
  igmpType : Option UInt8 := none
  igmpMaxResp : Option UInt8 := none
  igmpGroup : Option Text := none
  espSpi : Option UInt32 := none
  espSeq : Option UInt32 := none

/-- Transport-layer columns. -/
structure TransportCols where
  l4Proto : Option Text := none
  srcPort : Option UInt16 := none
  dstPort : Option UInt16 := none
  tcpSeq : Option UInt32 := none
  tcpAck : Option UInt32 := none
  tcpFlags : Option UInt16 := none
  tcpFlagsStr : Option Text := none
  tcpFlagSyn : Option Bool := none
  tcpFlagAck : Option Bool := none
  tcpFlagFin : Option Bool := none
  tcpFlagRst : Option Bool := none
  tcpFlagPsh : Option Bool := none
  tcpFlagUrg : Option Bool := none
  tcpFlagEce : Option Bool := none
  tcpFlagCwr : Option Bool := none
  tcpWindow : Option UInt16 := none
  tcpUrgentPtr : Option UInt16 := none
  tcpChecksum : Option UInt16 := none
  tcpHdrLen : Option UInt8 := none
  tcpMss : Option UInt16 := none
  tcpWindowScale : Option UInt8 := none
  tcpSackPermitted : Option Bool := none
  tcpSackBlocks : Option Text := none
  tcpTsVal : Option UInt32 := none
  tcpTsEcr : Option UInt32 := none
  tcpOptionKinds : Option Text := none
  udpLen : Option UInt16 := none
  udpChecksum : Option UInt16 := none
  sctpVerificationTag : Option UInt32 := none
  sctpChecksum : Option UInt32 := none
  sctpChunkTypes : Option Text := none
  sctpNumChunks : Option UInt16 := none

/-- Encapsulation columns. -/
structure TunnelCols where
  tunnelType : Option Text := none
  outerIpSrc : Option Text := none
  outerIpDst : Option Text := none
  outerSrcPort : Option UInt16 := none
  outerDstPort : Option UInt16 := none
  greProtocol : Option UInt16 := none
  greKey : Option UInt32 := none
  greSeq : Option UInt32 := none
  vxlanVni : Option UInt32 := none
  geneveVni : Option UInt32 := none
  geneveProtocol : Option UInt16 := none
  gtpTeid : Option UInt32 := none
  gtpMsgType : Option UInt8 := none
  gtpVersion : Option UInt8 := none
  erspanSpanId : Option UInt16 := none
  erspanVersion : Option UInt8 := none
  l2tpTunnelId : Option UInt16 := none
  l2tpSessionId : Option UInt16 := none
  teredoPresent : Option Bool := none

/-- Columns that link a packet to its flow. -/
structure FlowCols where
  flowId : Option ℕ := none
  communityId : Option Text := none
  direction : Option Text := none

/-- The shape of the payload, whatever protocol it carries. -/
structure PayloadCols where
  tcpPayloadLen : Option UInt32 := none
  udpPayloadLen : Option UInt32 := none
  payloadLen : Option UInt32 := none
  payloadEntropy : Option Float := none
  payloadPreview : Option Text := none
  payloadFirstBytes : Option Bytes := none
  payloadIsPrintable : Option Bool := none

/-- What reassembly did. -/
structure ReasmCols where
  reassembled : Option Bool := none
  reassemblyPartial : Option Bool := none

/-! ### Application layer -/

/-- DNS, mDNS and LLMNR. -/
structure DnsCols where
  dnsIsResponse : Option Bool := none
  dnsTransactionId : Option UInt16 := none
  dnsOpcode : Option UInt8 := none
  dnsRcode : Option UInt8 := none
  dnsRcodeName : Option Text := none
  dnsFlags : Option UInt16 := none
  dnsFlagAa : Option Bool := none
  dnsFlagTc : Option Bool := none
  dnsFlagRd : Option Bool := none
  dnsFlagRa : Option Bool := none
  dnsQname : Option Text := none
  dnsQnameLen : Option UInt32 := none
  dnsQnameEntropy : Option Float := none
  dnsTld : Option Text := none
  dnsQtype : Option UInt16 := none
  dnsQtypeName : Option Text := none
  dnsQclass : Option UInt16 := none
  dnsQdcount : Option UInt16 := none
  dnsAncount : Option UInt16 := none
  dnsNscount : Option UInt16 := none
  dnsArcount : Option UInt16 := none
  dnsAnswers : Option Text := none
  dnsAnswerIps : Option Text := none
  dnsCnames : Option Text := none
  dnsNsNames : Option Text := none
  dnsMxNames : Option Text := none
  dnsTxtData : Option Text := none
  dnsTtlMin : Option UInt32 := none
  dnsIsMdns : Option Bool := none
  dnsIsLlmnr : Option Bool := none
  dnsOverTcp : Option Bool := none

/-- HTTP/1 and HTTP/2. -/
structure HttpCols where
  httpIsRequest : Option Bool := none
  httpMethod : Option Text := none
  httpUri : Option Text := none
  httpUriPath : Option Text := none
  httpUriQuery : Option Text := none
  httpVersion : Option Text := none
  httpHost : Option Text := none
  httpUserAgent : Option Text := none
  httpReferer : Option Text := none
  httpCookie : Option Text := none
  httpContentType : Option Text := none
  httpContentLength : Option ℕ := none
  httpContentEncoding : Option Text := none
  httpTransferEncoding : Option Text := none
  httpAccept : Option Text := none
  httpAcceptLanguage : Option Text := none
  httpAuthorization : Option Text := none
  httpXForwardedFor : Option Text := none
  httpStatusCode : Option UInt16 := none
  httpStatusMsg : Option Text := none
  httpServer : Option Text := none
  httpLocation : Option Text := none
  httpSetCookie : Option Text := none
  httpHeaderNames : Option Text := none
  httpHeaderCount : Option UInt16 := none
  httpBodyPreview : Option Text := none
  http2StreamId : Option UInt32 := none
  http2FrameType : Option UInt8 := none
  http2Method : Option Text := none
  http2Path : Option Text := none
  http2Authority : Option Text := none
  http2Scheme : Option Text := none
  http2Status : Option Text := none

/-- TLS and DTLS, with the fingerprints. -/
structure TlsCols where
  tlsRecordType : Option UInt8 := none
  tlsRecordVersion : Option Text := none
  tlsHandshakeType : Option UInt8 := none
  tlsHandshakeTypeName : Option Text := none
  tlsVersion : Option Text := none
  tlsSupportedVersions : Option Text := none
  tlsSni : Option Text := none
  tlsAlpn : Option Text := none
  tlsCipherSuites : Option Text := none
  tlsCipherSuiteCount : Option UInt16 := none
  tlsCipherSelected : Option Text := none
  tlsCompressionMethods : Option Text := none
  tlsExtensions : Option Text := none
  tlsExtensionCount : Option UInt16 := none
  tlsSupportedGroups : Option Text := none
  tlsSigAlgs : Option Text := none
  tlsEcPointFormats : Option Text := none
  tlsSessionIdLen : Option UInt16 := none
  tlsCertSubject : Option Text := none
  tlsCertIssuer : Option Text := none
  tlsCertSans : Option Text := none
  tlsCertSerial : Option Text := none
  tlsCertNotBefore : Option Text := none
  tlsCertNotAfter : Option Text := none
  tlsCertChainLen : Option UInt8 := none
  tlsCertSelfSigned : Option Bool := none
  tlsAlertLevel : Option UInt8 := none
  tlsAlertDescription : Option UInt8 := none
  tlsIsDtls : Option Bool := none
  ja3 : Option Text := none
  ja3Full : Option Text := none
  ja3s : Option Text := none
  ja3sFull : Option Text := none
  ja4 : Option Text := none
  ja4s : Option Text := none

/-- QUIC. -/
structure QuicCols where
  quicVersion : Option UInt32 := none
  quicPacketType : Option UInt8 := none
  quicHeaderForm : Option UInt8 := none
  quicDcid : Option Text := none
  quicScid : Option Text := none
  quicSni : Option Text := none

/-- DHCP and DHCPv6. -/
structure DhcpCols where
  dhcpMsgType : Option UInt8 := none
  dhcpMsgTypeName : Option Text := none
  dhcpOp : Option UInt8 := none
  dhcpTransactionId : Option UInt32 := none
  dhcpClientMac : Option Text := none
  dhcpClientIp : Option Text := none
  dhcpYourIp : Option Text := none
  dhcpRequestedIp : Option Text := none
  dhcpServerId : Option Text := none
  dhcpHostname : Option Text := none
  dhcpDomain : Option Text := none
  dhcpVendorClass : Option Text := none
  dhcpParamReqList : Option Text := none
  dhcpLeaseTime : Option UInt32 := none
  dhcpFingerprint : Option Text := none
  dhcp6MsgType : Option UInt8 := none
  dhcp6TransactionId : Option UInt32 := none

/-- SMB and NTLM. -/
structure SmbCols where
  smbVersion : Option Text := none
  smbCommand : Option UInt16 := none
  smbCommandName : Option Text := none
  smbStatus : Option UInt32 := none
  smbFlags : Option UInt32 := none
  smbSessionId : Option UInt64 := none
  smbTreeId : Option UInt32 := none
  smbTree : Option Text := none
  smbFilename : Option Text := none
  smbDialect : Option Text := none
  smbSecurityMode : Option UInt16 := none
  ntlmUser : Option Text := none
  ntlmDomain : Option Text := none
  ntlmHost : Option Text := none
  ntlmMessageType : Option UInt32 := none

/-- SSH. -/
structure SshCols where
  sshProtocolVersion : Option Text := none
  sshSoftware : Option Text := none
  sshMsgType : Option UInt8 := none
  sshKexAlgs : Option Text := none
  sshHostKeyAlgs : Option Text := none
  sshEncAlgsC2s : Option Text := none
  sshEncAlgsS2c : Option Text := none
  sshMacAlgsC2s : Option Text := none
  sshCompAlgsC2s : Option Text := none
  hassh : Option Text := none
  hasshServer : Option Text := none

/-- Line-oriented plaintext protocols. -/
structure TextCols where
  smtpCommand : Option Text := none
  smtpArgument : Option Text := none
  smtpResponseCode : Option UInt16 := none
  smtpResponse : Option Text := none
  smtpMailFrom : Option Text := none
  smtpRcptTo : Option Text := none
  smtpSubject : Option Text := none
  ftpCommand : Option Text := none
  ftpArgument : Option Text := none
  ftpResponseCode : Option UInt16 := none
  ftpResponse : Option Text := none
  imapTag : Option Text := none
  imapCommand : Option Text := none
  imapArgument : Option Text := none
  pop3Command : Option Text := none
  pop3Argument : Option Text := none
  ircCommand : Option Text := none
  ircParams : Option Text := none
  ircNick : Option Text := none
  telnetData : Option Text := none
  vncVersion : Option Text := none
  syslogPriority : Option UInt8 := none
  syslogFacility : Option UInt8 := none
  syslogSeverity : Option UInt8 := none
  syslogHostname : Option Text := none
  syslogAppname : Option Text := none
  syslogMessage : Option Text := none

/-- LDAP and Kerberos. -/
structure DirectoryCols where
  ldapMessageId : Option UInt32 := none
  ldapOperation : Option Text := none
  ldapDn : Option Text := none
  ldapFilter : Option Text := none
  ldapAttributes : Option Text := none
  ldapResultCode : Option UInt32 := none
  ldapSaslMechanism : Option Text := none
  krbMsgType : Option UInt8 := none
  krbMsgTypeName : Option Text := none
  krbRealm : Option Text := none
  krbCname : Option Text := none
  krbSname : Option Text := none
  krbEtypes : Option Text := none
  krbErrorCode : Option UInt32 := none

/-- The protocols that share one module: NTP, SNMP, TFTP, RADIUS, RDP, MQTT, RTP, NetBIOS,
WireGuard and IKE. -/
structure MiscCols where
  ntpLeap : Option UInt8 := none
  ntpVersion : Option UInt8 := none
  ntpMode : Option UInt8 := none
  ntpModeName : Option Text := none
  ntpStratum : Option UInt8 := none
  ntpPoll : Option Int := none
  ntpPrecision : Option Int := none
  ntpRefId : Option Text := none
  snmpVersion : Option UInt8 := none
  snmpCommunity : Option Text := none
  snmpPduType : Option UInt8 := none
  snmpPduTypeName : Option Text := none
  snmpRequestId : Option Int := none
  snmpErrorStatus : Option UInt8 := none
  snmpOids : Option Text := none
  tftpOpcode : Option UInt16 := none
  tftpFilename : Option Text := none
  tftpMode : Option Text := none
  radiusCode : Option UInt8 := none
  radiusCodeName : Option Text := none
  radiusIdentifier : Option UInt8 := none
  radiusUsername : Option Text := none
  radiusNasIp : Option Text := none
  radiusCalledStation : Option Text := none
  radiusCallingStation : Option Text := none
  rdpType : Option Text := none
  rdpCookie : Option Text := none
  rdpRequestedProtocols : Option UInt32 := none
  mqttMsgType : Option UInt8 := none
  mqttMsgTypeName : Option Text := none
  mqttTopic : Option Text := none
  mqttClientId : Option Text := none
  mqttUsername : Option Text := none
  mqttQos : Option UInt8 := none
  mqttPayloadLen : Option UInt32 := none
  rtpVersion : Option UInt8 := none
  rtpPayloadType : Option UInt8 := none
  rtpSsrc : Option UInt32 := none
  rtpSeq : Option UInt16 := none
  rtpTimestamp : Option UInt32 := none
  rtpMarker : Option Bool := none
  rtcpType : Option UInt8 := none
  rtcpSsrc : Option UInt32 := none
  nbnsName : Option Text := none
  nbnsOpcode : Option UInt8 := none
  nbssType : Option UInt8 := none
  wireguardType : Option UInt8 := none
  wireguardSender : Option UInt32 := none
  wireguardReceiver : Option UInt32 := none
  ikeInitiatorSpi : Option Text := none
  ikeResponderSpi : Option Text := none
  ikeExchangeType : Option UInt8 := none
  ikeVersion : Option Text := none
  ikeMessageId : Option UInt32 := none

/-- SIP. -/
structure SipCols where
  sipMethod : Option Text := none
  sipUri : Option Text := none
  sipFrom : Option Text := none
  sipTo : Option Text := none
  sipCallId : Option Text := none
  sipStatusCode : Option UInt16 := none
  sipUserAgent : Option Text := none

/-- Industrial control. -/
structure IcsCols where
  modbusTransactionId : Option UInt16 := none
  modbusProtocolId : Option UInt16 := none
  modbusUnitId : Option UInt8 := none
  modbusFunctionCode : Option UInt8 := none
  modbusFunctionName : Option Text := none
  modbusReferenceNumber : Option UInt16 := none
  modbusWordCount : Option UInt16 := none
  modbusExceptionCode : Option UInt8 := none
  dnp3Source : Option UInt16 := none
  dnp3Destination : Option UInt16 := none
  dnp3FunctionCode : Option UInt8 := none
  dnp3FunctionName : Option Text := none
  dnp3Control : Option UInt8 := none
  s7commRosctr : Option UInt8 := none
  s7commFunction : Option UInt8 := none
  s7commFunctionName : Option Text := none
  s7commPduRef : Option UInt16 := none
  enipCommand : Option UInt16 := none
  enipSessionHandle : Option UInt32 := none
  cipService : Option UInt8 := none
  cipClass : Option UInt16 := none
  iec104TypeId : Option UInt8 := none
  iec104Cause : Option UInt8 := none
  iec104AsduAddress : Option UInt16 := none
  bacnetType : Option UInt8 := none
  bacnetService : Option UInt8 := none

/-- The columns of the application protocols. -/
structure AppCols where
  dns : DnsCols := {}
  http : HttpCols := {}
  tls : TlsCols := {}
  quic : QuicCols := {}
  dhcp : DhcpCols := {}
  smb : SmbCols := {}
  ssh : SshCols := {}
  text : TextCols := {}
  directory : DirectoryCols := {}
  misc : MiscCols := {}
  sip : SipCols := {}
  ics : IcsCols := {}

/-- One packet's extracted features. -/
structure Packet where
  frame : FrameCols := {}
  link : LinkCols := {}
  net : NetCols := {}
  transport : TransportCols := {}
  tunnel : TunnelCols := {}
  flow : FlowCols := {}
  app : AppCols := {}
  payload : PayloadCols := {}
  reasm : ReasmCols := {}

/-! ### Layers -/

/-- The layers a dissector can push on the protocol stack. -/
inductive Layer where
  | arp | bacnet | dhcp | dhcpv6 | dnp3 | dns | dtls | enip | erspan | esp | eth | ftp | geneve
  | gre | gtp | http | http2 | icmp | icmpv6 | iec104 | igmp | ike | imap | ip | ipFragment
  | ipip | ipv6 | irc | kerberos | l2tp | ldap | llc | lldp | llmnr | mdns | modbus | mpls | mqtt
  | nbns | nbss | ntp | null | ospf | pim | pop3 | ppp | pppoe | pppoed | quic | radiotap
  | radius | rdp | rtcp | rtp | s7comm | sctp | sip | sll | sll2 | smb | smb2 | smtp | snap
  | snmp | ssh | syslog | tcp | telnet | teredo | tftp | tls | udp | vlan | vnc | vrrp | vxlan
  | wireguard | wlan
  deriving DecidableEq

/-- The name of a layer, as it stands in the `proto_stack` column. -/
def Layer.name : Layer → Text
  | arp => "arp".toList
  | bacnet => "bacnet".toList
  | dhcp => "dhcp".toList
  | dhcpv6 => "dhcpv6".toList
  | dnp3 => "dnp3".toList
  | dns => "dns".toList
  | dtls => "dtls".toList
  | enip => "enip".toList
  | erspan => "erspan".toList
  | esp => "esp".toList
  | eth => "eth".toList
  | ftp => "ftp".toList
  | geneve => "geneve".toList
  | gre => "gre".toList
  | gtp => "gtp".toList
  | http => "http".toList
  | http2 => "http2".toList
  | icmp => "icmp".toList
  | icmpv6 => "icmpv6".toList
  | iec104 => "iec104".toList
  | igmp => "igmp".toList
  | ike => "ike".toList
  | imap => "imap".toList
  | ip => "ip".toList
  | ipFragment => "ip-fragment".toList
  | ipip => "ipip".toList
  | ipv6 => "ipv6".toList
  | irc => "irc".toList
  | kerberos => "kerberos".toList
  | l2tp => "l2tp".toList
  | ldap => "ldap".toList
  | llc => "llc".toList
  | lldp => "lldp".toList
  | llmnr => "llmnr".toList
  | mdns => "mdns".toList
  | modbus => "modbus".toList
  | mpls => "mpls".toList
  | mqtt => "mqtt".toList
  | nbns => "nbns".toList
  | nbss => "nbss".toList
  | ntp => "ntp".toList
  | null => "null".toList
  | ospf => "ospf".toList
  | pim => "pim".toList
  | pop3 => "pop3".toList
  | ppp => "ppp".toList
  | pppoe => "pppoe".toList
  | pppoed => "pppoed".toList
  | quic => "quic".toList
  | radiotap => "radiotap".toList
  | radius => "radius".toList
  | rdp => "rdp".toList
  | rtcp => "rtcp".toList
  | rtp => "rtp".toList
  | s7comm => "s7comm".toList
  | sctp => "sctp".toList
  | sip => "sip".toList
  | sll => "sll".toList
  | sll2 => "sll2".toList
  | smb => "smb".toList
  | smb2 => "smb2".toList
  | smtp => "smtp".toList
  | snap => "snap".toList
  | snmp => "snmp".toList
  | ssh => "ssh".toList
  | syslog => "syslog".toList
  | tcp => "tcp".toList
  | telnet => "telnet".toList
  | teredo => "teredo".toList
  | tftp => "tftp".toList
  | tls => "tls".toList
  | udp => "udp".toList
  | vlan => "vlan".toList
  | vnc => "vnc".toList
  | vrrp => "vrrp".toList
  | vxlan => "vxlan".toList
  | wireguard => "wireguard".toList
  | wlan => "wlan".toList

/-- The layer is that of a tunnel. -/
def Layer.isTunnel : Layer → Bool
  | gre | erspan | ipip | vxlan | geneve | gtp | l2tp | teredo => true
  | _ => false

/-- The stack as one string. -/
def joinStack (stack : List Layer) : Text := Text.join [':'] (stack.map Layer.name)

end PcapRacer

/-
**The wide schema.**

Every column of the packet table, in schema order: its name, its type, and the field of the packet
record that it holds.  A batch of the packet table is built from packet records column by column.

Main definitions:

* `Value` — what a cell holds when it is not null;
* `wideColumns`, `fieldNames` — the columns, and their names;
* `wideBatch` — the batch of some packet records.
-/

import PcapRacer.Packet
import PcapRacer.RecordBatch

set_option relaxedAutoImplicit false
set_option autoImplicit false

namespace PcapRacer

/-- What a cell holds when it is not null. -/
inductive Value where
  | u8 (v : UInt8)
  | u16 (v : UInt16)
  | u32 (v : UInt32)
  | u64 (v : ℕ)
  | i64 (v : Int)
  | f64 (v : Float)
  | bool (v : Bool)
  | str (v : Text)
  | bin (v : Bytes)
  | ts (v : Int)

/-- A column of the packet table. -/
abbrev WideColumn := Column Text Value Packet

/-! ### Columns by type -/

def WideColumn.u8 (name : String) (field : Packet → Option UInt8) : WideColumn :=
  ⟨name.toList, fun p => (field p).map .u8⟩

def WideColumn.u16 (name : String) (field : Packet → Option UInt16) : WideColumn :=
  ⟨name.toList, fun p => (field p).map .u16⟩

def WideColumn.u32 (name : String) (field : Packet → Option UInt32) : WideColumn :=
  ⟨name.toList, fun p => (field p).map .u32⟩

def WideColumn.u64 (name : String) (field : Packet → Option ℕ) : WideColumn :=
  ⟨name.toList, fun p => (field p).map .u64⟩

def WideColumn.i64 (name : String) (field : Packet → Option Int) : WideColumn :=
  ⟨name.toList, fun p => (field p).map .i64⟩

def WideColumn.f64 (name : String) (field : Packet → Option Float) : WideColumn :=
  ⟨name.toList, fun p => (field p).map .f64⟩

def WideColumn.bool (name : String) (field : Packet → Option Bool) : WideColumn :=
  ⟨name.toList, fun p => (field p).map .bool⟩

def WideColumn.str (name : String) (field : Packet → Option Text) : WideColumn :=
  ⟨name.toList, fun p => (field p).map .str⟩

def WideColumn.bin (name : String) (field : Packet → Option Bytes) : WideColumn :=
  ⟨name.toList, fun p => (field p).map .bin⟩

def WideColumn.ts (name : String) (field : Packet → Option Int) : WideColumn :=
  ⟨name.toList, fun p => (field p).map .ts⟩

/-! ### The columns in schema order -/

section Columns

open WideColumn

/-- The capture record. -/
def frameColumns : List WideColumn :=
  [ u64 "packet_id" (·.frame.packetId),
    u64 "frame_number" (·.frame.frameNumber),
    ts "ts" (·.frame.ts),
    i64 "ts_epoch_ns" (·.frame.tsEpochNs),
    u32 "frame_len" (·.frame.frameLen),
    u32 "cap_len" (·.frame.capLen),
    u32 "iface_id" (·.frame.ifaceId),
    u16 "link_type" (·.frame.linkType),
    str "proto_stack" (·.frame.protoStack),
    str "highest_layer" (·.frame.highestLayer),
    bool "malformed" (·.frame.malformed),
    bool "panicked" (·.frame.panicked),
    bool "truncated" (·.frame.truncated),
    u8 "tunnel_depth" (·.frame.tunnelDepth) ]

/-- Link layer. -/
def l2Columns : List WideColumn :=
  [ str "eth_src" (·.link.ethSrc),
    str "eth_dst" (·.link.ethDst),
    u16 "eth_type" (·.link.ethType),
    str "eth_src_oui" (·.link.ethSrcOui),
    bool "eth_is_broadcast" (·.link.ethIsBroadcast),
    bool "eth_is_multicast" (·.link.ethIsMulticast),
    u16 "vlan_id" (·.link.vlanId),
    u8 "vlan_pcp" (·.link.vlanPcp),
    bool "vlan_dei" (·.link.vlanDei),
    u16 "vlan_inner_id" (·.link.vlanInnerId),
    u32 "mpls_label" (·.link.mplsLabel),
    u8 "mpls_tc" (·.link.mplsTc),
    u8 "mpls_ttl" (·.link.mplsTtl),
    u16 "pppoe_session_id" (·.link.pppoeSessionId),
    u16 "ppp_protocol" (·.link.pppProtocol),
    u8 "llc_dsap" (·.link.llcDsap),
    u8 "llc_ssap" (·.link.llcSsap),
    u8 "llc_control" (·.link.llcControl),
    u32 "snap_oui" (·.link.snapOui),
    u16 "snap_pid" (·.link.snapPid),
    u16 "arp_hw_type" (·.link.arpHwType),
    u16 "arp_proto_type" (·.link.arpProtoType),
    u16 "arp_opcode" (·.link.arpOpcode),
    str "arp_opcode_name" (·.link.arpOpcodeName),
    str "arp_sender_mac" (·.link.arpSenderMac),
    str "arp_sender_ip" (·.link.arpSenderIp),
    str "arp_target_mac" (·.link.arpTargetMac),
    str "arp_target_ip" (·.link.arpTargetIp),
    bool "arp_is_gratuitous" (·.link.arpIsGratuitous),
    u8 "wlan_type" (·.link.wlanType),
    u8 "wlan_subtype" (·.link.wlanSubtype),
    str "wlan_bssid" (·.link.wlanBssid),
    str "wlan_ssid" (·.link.wlanSsid),
    u16 "wlan_channel" (·.link.wlanChannel),
    i64 "wlan_signal_dbm" (·.link.wlanSignalDbm) ]

/-- Network layer. -/
def l3Columns : List WideColumn :=
  [ u8 "ip_version" (·.net.ipVersion),
    str "ip_src" (·.net.ipSrc),
    str "ip_dst" (·.net.ipDst),
    bool "ip_src_is_private" (·.net.ipSrcIsPrivate),
    bool "ip_dst_is_private" (·.net.ipDstIsPrivate),
    u8 "ip_proto" (·.net.ipProto),
    str "ip_proto_name" (·.net.ipProtoName),
    u8 "ip_ttl" (·.net.ipTtl),
    u8 "ip_tos" (·.net.ipTos),
    u8 "ip_dscp" (·.net.ipDscp),
    u8 "ip_ecn" (·.net.ipEcn),
    u32 "ip_id" (·.net.ipId),
    bool "ip_flag_df" (·.net.ipFlagDf),
    bool "ip_flag_mf" (·.net.ipFlagMf),
    u16 "ip_frag_offset" (·.net.ipFragOffset),
    u8 "ip_hdr_len" (·.net.ipHdrLen),
    u32 "ip_total_len" (·.net.ipTotalLen),
    u16 "ip_checksum" (·.net.ipChecksum),
    str "ip_options" (·.net.ipOptions),
    u32 "ip6_flow_label" (·.net.ip6FlowLabel),
    u8 "ip6_traffic_class" (·.net.ip6TrafficClass),
    u8 "ip6_next_header" (·.net.ip6NextHeader),
    u8 "ip6_hop_limit" (·.net.ip6HopLimit),
    u16 "ip6_payload_len" (·.net.ip6PayloadLen),
    str "ip6_ext_headers" (·.net.ip6ExtHeaders),
    u8 "icmp_type" (·.net.icmpType),
    u8 "icmp_code" (·.net.icmpCode),
    str "icmp_type_name" (·.net.icmpTypeName),
    u16 "icmp_id" (·.net.icmpId),
    u16 "icmp_seq" (·.net.icmpSeq),
    str "icmp_gateway" (·.net.icmpGateway),
    u16 "icmp_mtu" (·.net.icmpMtu),
    u8 "icmp6_type" (·.net.icmp6Type),
    u8 "icmp6_code" (·.net.icmp6Code),
    str "icmp6_type_name" (·.net.icmp6TypeName),
    str "icmp6_nd_target" (·.net.icmp6NdTarget),
    str "icmp6_nd_option_mac" (·.net.icmp6NdOptionMac),
    u8 "igmp_type" (·.net.igmpType),
    u8 "igmp_max_resp" (·.net.igmpMaxResp),
    str "igmp_group" (·.net.igmpGroup) ]

/-- Transport layer. -/
def l4Columns : List WideColumn :=
  [ str "l4_proto" (·.transport.l4Proto),
    u16 "src_port" (·.transport.srcPort),
    u16 "dst_port" (·.transport.dstPort),
    u32 "tcp_seq" (·.transport.tcpSeq),
    u32 "tcp_ack" (·.transport.tcpAck),
    u16 "tcp_flags" (·.transport.tcpFlags),
    str "tcp_flags_str" (·.transport.tcpFlagsStr),
    bool "tcp_flag_syn" (·.transport.tcpFlagSyn),
    bool "tcp_flag_ack" (·.transport.tcpFlagAck),
    bool "tcp_flag_fin" (·.transport.tcpFlagFin),
    bool "tcp_flag_rst" (·.transport.tcpFlagRst),
    bool "tcp_flag_psh" (·.transport.tcpFlagPsh),
    bool "tcp_flag_urg" (·.transport.tcpFlagUrg),
    bool "tcp_flag_ece" (·.transport.tcpFlagEce),
    bool "tcp_flag_cwr" (·.transport.tcpFlagCwr),
    u16 "tcp_window" (·.transport.tcpWindow),
    u16 "tcp_urgent_ptr" (·.transport.tcpUrgentPtr),
    u16 "tcp_checksum" (·.transport.tcpChecksum),
    u8 "tcp_hdr_len" (·.transport.tcpHdrLen),
    u16 "tcp_mss" (·.transport.tcpMss),
    u8 "tcp_window_scale" (·.transport.tcpWindowScale),
    bool "tcp_sack_permitted" (·.transport.tcpSackPermitted),
    str "tcp_sack_blocks" (·.transport.tcpSackBlocks),
    u32 "tcp_ts_val" (·.transport.tcpTsVal),
    u32 "tcp_ts_ecr" (·.transport.tcpTsEcr),
    str "tcp_option_kinds" (·.transport.tcpOptionKinds),
    u32 "tcp_payload_len" (·.payload.tcpPayloadLen),
    u16 "udp_len" (·.transport.udpLen),
    u16 "udp_checksum" (·.transport.udpChecksum),
    u32 "udp_payload_len" (·.payload.udpPayloadLen),
    u32 "sctp_verification_tag" (·.transport.sctpVerificationTag),
    u32 "sctp_checksum" (·.transport.sctpChecksum),
    str "sctp_chunk_types" (·.transport.sctpChunkTypes),
    u16 "sctp_num_chunks" (·.transport.sctpNumChunks) ]

/-- Tunnels. -/
def tunnelColumns : List WideColumn :=
  [ str "tunnel_type" (·.tunnel.tunnelType),
    str "outer_ip_src" (·.tunnel.outerIpSrc),
    str "outer_ip_dst" (·.tunnel.outerIpDst),
    u16 "outer_src_port" (·.tunnel.outerSrcPort),
    u16 "outer_dst_port" (·.tunnel.outerDstPort),
    u16 "gre_protocol" (·.tunnel.greProtocol),
    u32 "gre_key" (·.tunnel.greKey),
    u32 "gre_seq" (·.tunnel.greSeq),
    u32 "vxlan_vni" (·.tunnel.vxlanVni),
    u32 "geneve_vni" (·.tunnel.geneveVni),
    u16 "geneve_protocol" (·.tunnel.geneveProtocol),
    u32 "gtp_teid" (·.tunnel.gtpTeid),
    u8 "gtp_msg_type" (·.tunnel.gtpMsgType),
    u8 "gtp_version" (·.tunnel.gtpVersion),
    u16 "erspan_span_id" (·.tunnel.erspanSpanId),
    u8 "erspan_version" (·.tunnel.erspanVersion),
    u16 "l2tp_tunnel_id" (·.tunnel.l2tpTunnelId),
    u16 "l2tp_session_id" (·.tunnel.l2tpSessionId),
    bool "teredo_present" (·.tunnel.teredoPresent) ]

/-- Flow linkage. -/
def flowColumns : List WideColumn :=
  [ u64 "flow_id" (·.flow.flowId),
    str "community_id" (·.flow.communityId),
    str "direction" (·.flow.direction) ]

/-- DNS, mDNS and LLMNR. -/
def dnsColumns : List WideColumn :=
  [ bool "dns_is_response" (·.app.dns.dnsIsResponse),
    u16 "dns_transaction_id" (·.app.dns.dnsTransactionId),
    u8 "dns_opcode" (·.app.dns.dnsOpcode),
    u8 "dns_rcode" (·.app.dns.dnsRcode),
    str "dns_rcode_name" (·.app.dns.dnsRcodeName),
    u16 "dns_flags" (·.app.dns.dnsFlags),
    bool "dns_flag_aa" (·.app.dns.dnsFlagAa),
    bool "dns_flag_tc" (·.app.dns.dnsFlagTc),
    bool "dns_flag_rd" (·.app.dns.dnsFlagRd),
    bool "dns_flag_ra" (·.app.dns.dnsFlagRa),
    str "dns_qname" (·.app.dns.dnsQname),
    u32 "dns_qname_len" (·.app.dns.dnsQnameLen),
    f64 "dns_qname_entropy" (·.app.dns.dnsQnameEntropy),
    str "dns_tld" (·.app.dns.dnsTld),
    u16 "dns_qtype" (·.app.dns.dnsQtype),
    str "dns_qtype_name" (·.app.dns.dnsQtypeName),
    u16 "dns_qclass" (·.app.dns.dnsQclass),
    u16 "dns_qdcount" (·.app.dns.dnsQdcount),
    u16 "dns_ancount" (·.app.dns.dnsAncount),
    u16 "dns_nscount" (·.app.dns.dnsNscount),
    u16 "dns_arcount" (·.app.dns.dnsArcount),
    str "dns_answers" (·.app.dns.dnsAnswers),
    str "dns_answer_ips" (·.app.dns.dnsAnswerIps),
    str "dns_cnames" (·.app.dns.dnsCnames),
    str "dns_ns_names" (·.app.dns.dnsNsNames),
    str "dns_mx_names" (·.app.dns.dnsMxNames),
    str "dns_txt_data" (·.app.dns.dnsTxtData),
    u32 "dns_ttl_min" (·.app.dns.dnsTtlMin),
    bool "dns_is_mdns" (·.app.dns.dnsIsMdns),
    bool "dns_is_llmnr" (·.app.dns.dnsIsLlmnr),
    bool "dns_over_tcp" (·.app.dns.dnsOverTcp) ]

/-- HTTP. -/
def httpColumns : List WideColumn :=
  [ bool "http_is_request" (·.app.http.httpIsRequest),
    str "http_method" (·.app.http.httpMethod),
    str "http_uri" (·.app.http.httpUri),
    str "http_uri_path" (·.app.http.httpUriPath),
    str "http_uri_query" (·.app.http.httpUriQuery),
    str "http_version" (·.app.http.httpVersion),
    str "http_host" (·.app.http.httpHost),
    str "http_user_agent" (·.app.http.httpUserAgent),
    str "http_referer" (·.app.http.httpReferer),
    str "http_cookie" (·.app.http.httpCookie),
    str "http_content_type" (·.app.http.httpContentType),
    u64 "http_content_length" (·.app.http.httpContentLength),
    str "http_content_encoding" (·.app.http.httpContentEncoding),
    str "http_transfer_encoding" (·.app.http.httpTransferEncoding),
    str "http_accept" (·.app.http.httpAccept),
    str "http_accept_language" (·.app.http.httpAcceptLanguage),
    str "http_authorization" (·.app.http.httpAuthorization),
    str "http_x_forwarded_for" (·.app.http.httpXForwardedFor),
    u16 "http_status_code" (·.app.http.httpStatusCode),
    str "http_status_msg" (·.app.http.httpStatusMsg),
    str "http_server" (·.app.http.httpServer),
    str "http_location" (·.app.http.httpLocation),
    str "http_set_cookie" (·.app.http.httpSetCookie),
    str "http_header_names" (·.app.http.httpHeaderNames),
    u16 "http_header_count" (·.app.http.httpHeaderCount),
    str "http_body_preview" (·.app.http.httpBodyPreview),
    u32 "http2_stream_id" (·.app.http.http2StreamId),
    u8 "http2_frame_type" (·.app.http.http2FrameType),
    str "http2_method" (·.app.http.http2Method),
    str "http2_path" (·.app.http.http2Path),
    str "http2_authority" (·.app.http.http2Authority),
    str "http2_scheme" (·.app.http.http2Scheme),
    str "http2_status" (·.app.http.http2Status) ]

/-- TLS and DTLS. -/
def tlsColumns : List WideColumn :=
  [ u8 "tls_record_type" (·.app.tls.tlsRecordType),
    str "tls_record_version" (·.app.tls.tlsRecordVersion),
    u8 "tls_handshake_type" (·.app.tls.tlsHandshakeType),
    str "tls_handshake_type_name" (·.app.tls.tlsHandshakeTypeName),
    str "tls_version" (·.app.tls.tlsVersion),
    str "tls_supported_versions" (·.app.tls.tlsSupportedVersions),
    str "tls_sni" (·.app.tls.tlsSni),
    str "tls_alpn" (·.app.tls.tlsAlpn),
    str "tls_cipher_suites" (·.app.tls.tlsCipherSuites),
    u16 "tls_cipher_suite_count" (·.app.tls.tlsCipherSuiteCount),
    str "tls_cipher_selected" (·.app.tls.tlsCipherSelected),
    str "tls_compression_methods" (·.app.tls.tlsCompressionMethods),
    str "tls_extensions" (·.app.tls.tlsExtensions),
    u16 "tls_extension_count" (·.app.tls.tlsExtensionCount),
    str "tls_supported_groups" (·.app.tls.tlsSupportedGroups),
    str "tls_sig_algs" (·.app.tls.tlsSigAlgs),
    str "tls_ec_point_formats" (·.app.tls.tlsEcPointFormats),
    u16 "tls_session_id_len" (·.app.tls.tlsSessionIdLen),
    str "tls_cert_subject" (·.app.tls.tlsCertSubject),
    str "tls_cert_issuer" (·.app.tls.tlsCertIssuer),
    str "tls_cert_sans" (·.app.tls.tlsCertSans),
    str "tls_cert_serial" (·.app.tls.tlsCertSerial),
    str "tls_cert_not_before" (·.app.tls.tlsCertNotBefore),
    str "tls_cert_not_after" (·.app.tls.tlsCertNotAfter),
    u8 "tls_cert_chain_len" (·.app.tls.tlsCertChainLen),
    bool "tls_cert_self_signed" (·.app.tls.tlsCertSelfSigned),
    u8 "tls_alert_level" (·.app.tls.tlsAlertLevel),
    u8 "tls_alert_description" (·.app.tls.tlsAlertDescription),
    bool "tls_is_dtls" (·.app.tls.tlsIsDtls),
    str "ja3" (·.app.tls.ja3),
    str "ja3_full" (·.app.tls.ja3Full),
    str "ja3s" (·.app.tls.ja3s),
    str "ja3s_full" (·.app.tls.ja3sFull),
    str "ja4" (·.app.tls.ja4),
    str "ja4s" (·.app.tls.ja4s) ]

/-- QUIC. -/
def quicColumns : List WideColumn :=
  [ u32 "quic_version" (·.app.quic.quicVersion),
    u8 "quic_packet_type" (·.app.quic.quicPacketType),
    u8 "quic_header_form" (·.app.quic.quicHeaderForm),
    str "quic_dcid" (·.app.quic.quicDcid),
    str "quic_scid" (·.app.quic.quicScid),
    str "quic_sni" (·.app.quic.quicSni) ]

/-- DHCP. -/
def dhcpColumns : List WideColumn :=
  [ u8 "dhcp_msg_type" (·.app.dhcp.dhcpMsgType),
    str "dhcp_msg_type_name" (·.app.dhcp.dhcpMsgTypeName),
    u8 "dhcp_op" (·.app.dhcp.dhcpOp),
    u32 "dhcp_transaction_id" (·.app.dhcp.dhcpTransactionId),
    str "dhcp_client_mac" (·.app.dhcp.dhcpClientMac),
    str "dhcp_client_ip" (·.app.dhcp.dhcpClientIp),
    str "dhcp_your_ip" (·.app.dhcp.dhcpYourIp),
    str "dhcp_requested_ip" (·.app.dhcp.dhcpRequestedIp),
    str "dhcp_server_id" (·.app.dhcp.dhcpServerId),
    str "dhcp_hostname" (·.app.dhcp.dhcpHostname),
    str "dhcp_domain" (·.app.dhcp.dhcpDomain),
    str "dhcp_vendor_class" (·.app.dhcp.dhcpVendorClass),
    str "dhcp_param_req_list" (·.app.dhcp.dhcpParamReqList),
    u32 "dhcp_lease_time" (·.app.dhcp.dhcpLeaseTime),
    str "dhcp_fingerprint" (·.app.dhcp.dhcpFingerprint),
    u8 "dhcp6_msg_type" (·.app.dhcp.dhcp6MsgType),
    u32 "dhcp6_transaction_id" (·.app.dhcp.dhcp6TransactionId) ]

/-- SMB and NTLM. -/
def smbColumns : List WideColumn :=
  [ str "smb_version" (·.app.smb.smbVersion),
    u16 "smb_command" (·.app.smb.smbCommand),
    str "smb_command_name" (·.app.smb.smbCommandName),
    u32 "smb_status" (·.app.smb.smbStatus),
    u32 "smb_flags" (·.app.smb.smbFlags),
    u64 "smb_session_id" fun p => p.app.smb.smbSessionId.map UInt64.toNat,
    u32 "smb_tree_id" (·.app.smb.smbTreeId),
    str "smb_tree" (·.app.smb.smbTree),
    str "smb_filename" (·.app.smb.smbFilename),
    str "smb_dialect" (·.app.smb.smbDialect),
    u16 "smb_security_mode" (·.app.smb.smbSecurityMode),
    str "ntlm_user" (·.app.smb.ntlmUser),
    str "ntlm_domain" (·.app.smb.ntlmDomain),
    str "ntlm_host" (·.app.smb.ntlmHost),
    u32 "ntlm_message_type" (·.app.smb.ntlmMessageType) ]

/-- SSH. -/
def sshColumns : List WideColumn :=
  [ str "ssh_protocol_version" (·.app.ssh.sshProtocolVersion),
    str "ssh_software" (·.app.ssh.sshSoftware),
    u8 "ssh_msg_type" (·.app.ssh.sshMsgType),
    str "ssh_kex_algs" (·.app.ssh.sshKexAlgs),
    str "ssh_host_key_algs" (·.app.ssh.sshHostKeyAlgs),
    str "ssh_enc_algs_c2s" (·.app.ssh.sshEncAlgsC2s),
    str "ssh_enc_algs_s2c" (·.app.ssh.sshEncAlgsS2c),
    str "ssh_mac_algs_c2s" (·.app.ssh.sshMacAlgsC2s),
    str "ssh_comp_algs_c2s" (·.app.ssh.sshCompAlgsC2s),
    str "hassh" (·.app.ssh.hassh),
    str "hassh_server" (·.app.ssh.hasshServer) ]

/-- NTP and SNMP. -/
def ntpColumns : List WideColumn :=
  [ u8 "ntp_leap" (·.app.misc.ntpLeap),
    u8 "ntp_version" (·.app.misc.ntpVersion),
    u8 "ntp_mode" (·.app.misc.ntpMode),
    str "ntp_mode_name" (·.app.misc.ntpModeName),
    u8 "ntp_stratum" (·.app.misc.ntpStratum),
    i64 "ntp_poll" (·.app.misc.ntpPoll),
    i64 "ntp_precision" (·.app.misc.ntpPrecision),
    str "ntp_ref_id" (·.app.misc.ntpRefId),
    u8 "snmp_version" (·.app.misc.snmpVersion),
    str "snmp_community" (·.app.misc.snmpCommunity),
    u8 "snmp_pdu_type" (·.app.misc.snmpPduType),
    str "snmp_pdu_type_name" (·.app.misc.snmpPduTypeName),
    i64 "snmp_request_id" (·.app.misc.snmpRequestId),
    u8 "snmp_error_status" (·.app.misc.snmpErrorStatus),
    str "snmp_oids" (·.app.misc.snmpOids) ]

/-- Mail, file transfer and shell protocols. -/
def textColumns : List WideColumn :=
  [ str "smtp_command" (·.app.text.smtpCommand),
    str "smtp_argument" (·.app.text.smtpArgument),
    u16 "smtp_response_code" (·.app.text.smtpResponseCode),
    str "smtp_response" (·.app.text.smtpResponse),
    str "smtp_mail_from" (·.app.text.smtpMailFrom),
    str "smtp_rcpt_to" (·.app.text.smtpRcptTo),
    str "smtp_subject" (·.app.text.smtpSubject),
    str "ftp_command" (·.app.text.ftpCommand),
    str "ftp_argument" (·.app.text.ftpArgument),
    u16 "ftp_response_code" (·.app.text.ftpResponseCode),
    str "ftp_response" (·.app.text.ftpResponse),
    str "imap_tag" (·.app.text.imapTag),
    str "imap_command" (·.app.text.imapCommand),
    str "imap_argument" (·.app.text.imapArgument),
    str "pop3_command" (·.app.text.pop3Command),
    str "pop3_argument" (·.app.text.pop3Argument),
    str "irc_command" (·.app.text.ircCommand),
    str "irc_params" (·.app.text.ircParams),
    str "irc_nick" (·.app.text.ircNick),
    str "telnet_data" (·.app.text.telnetData),
    u16 "tftp_opcode" (·.app.misc.tftpOpcode),
    str "tftp_filename" (·.app.misc.tftpFilename),
    str "tftp_mode" (·.app.misc.tftpMode),
    str "vnc_version" (·.app.text.vncVersion) ]

/-- Directory and authentication. -/
def directoryColumns : List WideColumn :=
  [ u32 "ldap_message_id" (·.app.directory.ldapMessageId),
    str "ldap_operation" (·.app.directory.ldapOperation),
    str "ldap_dn" (·.app.directory.ldapDn),
    str "ldap_filter" (·.app.directory.ldapFilter),
    str "ldap_attributes" (·.app.directory.ldapAttributes),
    u32 "ldap_result_code" (·.app.directory.ldapResultCode),
    str "ldap_sasl_mechanism" (·.app.directory.ldapSaslMechanism),
    u8 "krb_msg_type" (·.app.directory.krbMsgType),
    str "krb_msg_type_name" (·.app.directory.krbMsgTypeName),
    str "krb_realm" (·.app.directory.krbRealm),
    str "krb_cname" (·.app.directory.krbCname),
    str "krb_sname" (·.app.directory.krbSname),
    str "krb_etypes" (·.app.directory.krbEtypes),
    u32 "krb_error_code" (·.app.directory.krbErrorCode),
    u8 "radius_code" (·.app.misc.radiusCode),
    str "radius_code_name" (·.app.misc.radiusCodeName),
    u8 "radius_identifier" (·.app.misc.radiusIdentifier),
    str "radius_username" (·.app.misc.radiusUsername),
    str "radius_nas_ip" (·.app.misc.radiusNasIp),
    str "radius_called_station" (·.app.misc.radiusCalledStation),
    str "radius_calling_station" (·.app.misc.radiusCallingStation) ]

/-- Remote access, messaging and telephony. -/
def remoteColumns : List WideColumn :=
  [ str "rdp_type" (·.app.misc.rdpType),
    str "rdp_cookie" (·.app.misc.rdpCookie),
    u32 "rdp_requested_protocols" (·.app.misc.rdpRequestedProtocols),
    u8 "mqtt_msg_type" (·.app.misc.mqttMsgType),
    str "mqtt_msg_type_name" (·.app.misc.mqttMsgTypeName),
    str "mqtt_topic" (·.app.misc.mqttTopic),
    str "mqtt_client_id" (·.app.misc.mqttClientId),
    str "mqtt_username" (·.app.misc.mqttUsername),
    u8 "mqtt_qos" (·.app.misc.mqttQos),
    u32 "mqtt_payload_len" (·.app.misc.mqttPayloadLen),
    str "sip_method" (·.app.sip.sipMethod),
    str "sip_uri" (·.app.sip.sipUri),
    str "sip_from" (·.app.sip.sipFrom),
    str "sip_to" (·.app.sip.sipTo),
    str "sip_call_id" (·.app.sip.sipCallId),
    u16 "sip_status_code" (·.app.sip.sipStatusCode),
    str "sip_user_agent" (·.app.sip.sipUserAgent),
    u8 "rtp_version" (·.app.misc.rtpVersion),
    u8 "rtp_payload_type" (·.app.misc.rtpPayloadType),
    u32 "rtp_ssrc" (·.app.misc.rtpSsrc),
    u16 "rtp_seq" (·.app.misc.rtpSeq),
    u32 "rtp_timestamp" (·.app.misc.rtpTimestamp),
    bool "rtp_marker" (·.app.misc.rtpMarker),
    u8 "rtcp_type" (·.app.misc.rtcpType),
    u32 "rtcp_ssrc" (·.app.misc.rtcpSsrc) ]

/-- Name services and logging. -/
def nameColumns : List WideColumn :=
  [ str "nbns_name" (·.app.misc.nbnsName),
    u8 "nbns_opcode" (·.app.misc.nbnsOpcode),
    u8 "nbss_type" (·.app.misc.nbssType),
    u8 "syslog_priority" (·.app.text.syslogPriority),
    u8 "syslog_facility" (·.app.text.syslogFacility),
    u8 "syslog_severity" (·.app.text.syslogSeverity),
    str "syslog_hostname" (·.app.text.syslogHostname),
    str "syslog_appname" (·.app.text.syslogAppname),
    str "syslog_message" (·.app.text.syslogMessage) ]

/-- VPN and crypto transports. -/
def vpnColumns : List WideColumn :=
  [ u8 "wireguard_type" (·.app.misc.wireguardType),
    u32 "wireguard_sender" (·.app.misc.wireguardSender),
    u32 "wireguard_receiver" (·.app.misc.wireguardReceiver),
    u32 "esp_spi" (·.net.espSpi),
    u32 "esp_seq" (·.net.espSeq),
    str "ike_initiator_spi" (·.app.misc.ikeInitiatorSpi),
    str "ike_responder_spi" (·.app.misc.ikeResponderSpi),
    u8 "ike_exchange_type" (·.app.misc.ikeExchangeType),
    str "ike_version" (·.app.misc.ikeVersion),
    u32 "ike_message_id" (·.app.misc.ikeMessageId) ]

/-- Control systems. -/
def icsColumns : List WideColumn :=
  [ u16 "modbus_transaction_id" (·.app.ics.modbusTransactionId),
    u16 "modbus_protocol_id" (·.app.ics.modbusProtocolId),
    u8 "modbus_unit_id" (·.app.ics.modbusUnitId),
    u8 "modbus_function_code" (·.app.ics.modbusFunctionCode),
    str "modbus_function_name" (·.app.ics.modbusFunctionName),
    u16 "modbus_reference_number" (·.app.ics.modbusReferenceNumber),
    u16 "modbus_word_count" (·.app.ics.modbusWordCount),
    u8 "modbus_exception_code" (·.app.ics.modbusExceptionCode),
    u16 "dnp3_source" (·.app.ics.dnp3Source),
    u16 "dnp3_destination" (·.app.ics.dnp3Destination),
    u8 "dnp3_function_code" (·.app.ics.dnp3FunctionCode),
    str "dnp3_function_name" (·.app.ics.dnp3FunctionName),
    u8 "dnp3_control" (·.app.ics.dnp3Control),
    u8 "s7comm_rosctr" (·.app.ics.s7commRosctr),
    u8 "s7comm_function" (·.app.ics.s7commFunction),
    str "s7comm_function_name" (·.app.ics.s7commFunctionName),
    u16 "s7comm_pdu_ref" (·.app.ics.s7commPduRef),
    u16 "enip_command" (·.app.ics.enipCommand),
    u32 "enip_session_handle" (·.app.ics.enipSessionHandle),
    u8 "cip_service" (·.app.ics.cipService),
    u16 "cip_class" (·.app.ics.cipClass),
    u8 "iec104_type_id" (·.app.ics.iec104TypeId),
    u8 "iec104_cause" (·.app.ics.iec104Cause),
    u16 "iec104_asdu_address" (·.app.ics.iec104AsduAddress),
    u8 "bacnet_type" (·.app.ics.bacnetType),
    u8 "bacnet_service" (·.app.ics.bacnetService) ]

/-- The payload. -/
def payloadColumns : List WideColumn :=
  [ u32 "payload_len" (·.payload.payloadLen),
    f64 "payload_entropy" (·.payload.payloadEntropy),
    str "payload_preview" (·.payload.payloadPreview),
    bin "payload_first_bytes" (·.payload.payloadFirstBytes),
    bool "payload_is_printable" (·.payload.payloadIsPrintable) ]

/-- Reassembly. -/
def reassemblyColumns : List WideColumn :=
  [ bool "reassembled" (·.reasm.reassembled),
    bool "reassembly_partial" (·.reasm.reassemblyPartial) ]

end Columns

/-- Every column, in schema order. -/
def wideColumns : List WideColumn :=
  frameColumns ++ l2Columns ++ l3Columns ++ l4Columns ++ tunnelColumns ++ flowColumns ++
    dnsColumns ++ httpColumns ++ tlsColumns ++ quicColumns ++ dhcpColumns ++ smbColumns ++
    sshColumns ++ ntpColumns ++ textColumns ++ directoryColumns ++ remoteColumns ++ nameColumns ++
    vpnColumns ++ icsColumns ++ payloadColumns ++ reassemblyColumns

/-- The names of the columns, in schema order. -/
def fieldNames : List Text := wideColumns.map (·.name)

/-- The batch that the builder makes of the records appended to it. -/
def wideBatch (packets : List Packet) : RecordBatch Text Value :=
  RecordBatch.ofRecords wideColumns packets

end PcapRacer

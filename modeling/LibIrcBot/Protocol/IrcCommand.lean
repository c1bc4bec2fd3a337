import LibIrcBot.Foundations.CString

/-! # The commands of `irccommand.c`

The enumeration with its values, the printed name of each command, and the parser
that inverts the two tables.
-/
namespace LibIrcBot
open CString

inductive IrcCommand where
  | CMD_UNKNOWN | RPL_WELCOME | RPL_YOURHOST | RPL_CREATED | RPL_MYINFO | RPL_BOUNCE | MSG_PASS
  | MSG_NICK | MSG_USER | MSG_OPER | MSG_MODE | MSG_SERVICE | MSG_QUIT | MSG_SQUIT | MSG_JOIN
  | MSG_PART | MSG_TOPIC | MSG_NAMES | MSG_LIST | MSG_INVITE | MSG_KICK | MSG_PRIVMSG | MSG_NOTICE
  | MSG_MOTD | MSG_LUSERS | MSG_VERSION | MSG_STATS | MSG_LINKS | MSG_TIME | MSG_CONNECT | MSG_TRACE
  | MSG_ADMIN | MSG_INFO | MSG_SERVLIST | MSG_SQUERY | MSG_WHO | MSG_WHOIS | MSG_WHOWAS | MSG_KILL
  | MSG_PING | MSG_PONG | MSG_ERROR | MSG_AWAY | MSG_REHASH | MSG_DIE | MSG_RESTART | MSG_SUMMON
  | MSG_USERS | MSG_WALLOPS | MSG_USERHOST | MSG_ISON | RPL_TRACELINK | RPL_TRACECONNECTING
  | RPL_TRACEHANDSHAKE | RPL_TRACEUNKNOWN | RPL_TRACEOPERATOR | RPL_TRACEUSER | RPL_TRACESERVER
  | RPL_TRACESERVICE | RPL_TRACENEWTYPE | RPL_TRACECLASS | RPL_TRACECONNECT | RPL_STATSLINKINFO
  | RPL_STATSCOMMANDS | RPL_STATSCLINE | RPL_STATSNLINE | RPL_STATSILINE | RPL_STATSKLINE
  | RPL_STATSQLINE | RPL_STATSYLINE | RPL_ENDOFSTATS | RPL_UMODEIS | RPL_SERVICEINFO
  | RPL_ENDOFSERVICES | RPL_SERVICE | RPL_SERVLIST | RPL_SERVLISTEND | RPL_STATSVLINE | RPL_STATSLLINE
  | RPL_STATSUPTIME | RPL_STATSONLINE | RPL_STATSHLINE | RPL_STATSSLINE | RPL_STATSPING
  | RPL_STATSBLINE | RPL_STATSDLINE | RPL_LUSERCLIENT | RPL_LUSEROP | RPL_LUSERUNKNOWN
  | RPL_LUSERCHANNELS | RPL_LUSERME | RPL_ADMINME | RPL_ADMINLOC1 | RPL_ADMINLOC2 | RPL_ADMINEMAIL
  | RPL_TRACELOG | RPL_TRACEEND | RPL_TRYAGAIN | RPL_NONE | RPL_AWAY | RPL_USERHOST | RPL_ISON
  | RPL_UNAWAY | RPL_NOWAWAY | RPL_WHOISUSER | RPL_WHOISSERVER | RPL_WHOISOPERATOR | RPL_WHOWASUSER
  | RPL_ENDOFWHO | RPL_WHOISCHANOP | RPL_WHOISIDLE | RPL_ENDOFWHOIS | RPL_WHOISCHANNELS | RPL_LISTSTART
  | RPL_LIST | RPL_LISTEND | RPL_CHANNELMODEIS | RPL_UNIQOPIS | RPL_NOTOPIC | RPL_TOPIC | RPL_INVITING
  | RPL_SUMMONING | RPL_INVITELIST | RPL_ENDOFINVITELIST | RPL_EXCEPTLIST | RPL_ENDOFEXCEPTLIST
  | RPL_VERSION | RPL_WHOREPLY | RPL_NAMREPLY | RPL_KILLDONE | RPL_CLOSING | RPL_CLOSEEND | RPL_LINKS
  | RPL_ENDOFLINKS | RPL_ENDOFNAMES | RPL_BANLIST | RPL_ENDOFBANLIST | RPL_ENDOFWHOWAS | RPL_INFO
  | RPL_MOTD | RPL_INFOSTART | RPL_ENDOFINFO | RPL_MOTDSTART | RPL_ENDOFMOTD | RPL_YOUREOPER
  | RPL_REHASHING | RPL_YOURESERVICE | RPL_MYPORTIS | RPL_TIME | RPL_USERSSTART | RPL_USERS
  | RPL_ENDOFUSERS | RPL_NOUSERS | ERR_NOSUCHNICK | ERR_NOSUCHSERVER | ERR_NOSUCHCHANNEL
  | ERR_CANNOTSENDTOCHAN | ERR_TOOMANYCHANNELS | ERR_WASNOSUCHNICK | ERR_TOOMANYTARGETS
  | ERR_NOSUCHSERVICE | ERR_NOORIGIN | ERR_NORECIPIENT | ERR_NOTEXTTOSEND | ERR_NOTOPLEVEL
  | ERR_WILDTOPLEVEL | ERR_BADMASK | ERR_UNKNOWNCOMMAND | ERR_NOMOTD | ERR_NOADMININFO | ERR_FILEERROR
  | ERR_NONICKNAMEGIVEN | ERR_ERRONEUSNICKNAME | ERR_NICKNAMEINUSE | ERR_NICKCOLLISION
  | ERR_UNAVAILRESOURCE | ERR_USERNOTINCHANNEL | ERR_NOTONCHANNEL | ERR_USERONCHANNEL | ERR_NOLOGIN
  | ERR_SUMMONDISABLED | ERR_USERSDISABLED | ERR_NOTREGISTERED | ERR_NEEDMOREPARAMS
  | ERR_ALREADYREGISTERED | ERR_NOPERMFORHOST | ERR_PASSWDMISMATCH | ERR_YOUREBANNEDCREEP
  | ERR_YOUWILLBEBANNED | ERR_KEYSET | ERR_CHANNELISFULL | ERR_UNKNOWNMODE | ERR_INVITEONLYCHAN
  | ERR_BANNEDFROMCHAN | ERR_BADCHANNELKEY | ERR_BADCHANMASK | ERR_NOCHANMODES | ERR_BANLISTFULL
  | ERR_NOPRIVILEGES | ERR_CHANOPPRIVSNEEDED | ERR_CANTKILLSERVER | ERR_RESTRICTED
  | ERR_UNIQOPPRIVSNEEDED | ERR_NOOPERHOST | ERR_NOSERVICEHOST | ERR_UMODEUNKNOWNFLAG
  | ERR_USERSDONTMATCH
deriving DecidableEq, Repr

namespace IrcCommand

/-- The value of the enumeration constant, which is also the id of its event. -/
def code : IrcCommand → ℕ
  | .CMD_UNKNOWN => 0 | .RPL_WELCOME => 1 | .RPL_YOURHOST => 2 | .RPL_CREATED => 3 | .RPL_MYINFO => 4
  | .RPL_BOUNCE => 5 | .MSG_PASS => 100 | .MSG_NICK => 101 | .MSG_USER => 102 | .MSG_OPER => 103
  | .MSG_MODE => 104 | .MSG_SERVICE => 105 | .MSG_QUIT => 106 | .MSG_SQUIT => 107 | .MSG_JOIN => 108
  | .MSG_PART => 109 | .MSG_TOPIC => 110 | .MSG_NAMES => 111 | .MSG_LIST => 112 | .MSG_INVITE => 113
  | .MSG_KICK => 114 | .MSG_PRIVMSG => 115 | .MSG_NOTICE => 116 | .MSG_MOTD => 117 | .MSG_LUSERS => 118
  | .MSG_VERSION => 119 | .MSG_STATS => 120 | .MSG_LINKS => 121 | .MSG_TIME => 122
  | .MSG_CONNECT => 123 | .MSG_TRACE => 124 | .MSG_ADMIN => 125 | .MSG_INFO => 126
  | .MSG_SERVLIST => 127 | .MSG_SQUERY => 128 | .MSG_WHO => 129 | .MSG_WHOIS => 130
  | .MSG_WHOWAS => 131 | .MSG_KILL => 132 | .MSG_PING => 133 | .MSG_PONG => 134 | .MSG_ERROR => 135
  | .MSG_AWAY => 136 | .MSG_REHASH => 137 | .MSG_DIE => 138 | .MSG_RESTART => 139 | .MSG_SUMMON => 140
  | .MSG_USERS => 141 | .MSG_WALLOPS => 142 | .MSG_USERHOST => 143 | .MSG_ISON => 144
  | .RPL_TRACELINK => 200 | .RPL_TRACECONNECTING => 201 | .RPL_TRACEHANDSHAKE => 202
  | .RPL_TRACEUNKNOWN => 203 | .RPL_TRACEOPERATOR => 204 | .RPL_TRACEUSER => 205
  | .RPL_TRACESERVER => 206 | .RPL_TRACESERVICE => 207 | .RPL_TRACENEWTYPE => 208
  | .RPL_TRACECLASS => 209 | .RPL_TRACECONNECT => 210 | .RPL_STATSLINKINFO => 211
  | .RPL_STATSCOMMANDS => 212 | .RPL_STATSCLINE => 213 | .RPL_STATSNLINE => 214
  | .RPL_STATSILINE => 215 | .RPL_STATSKLINE => 216 | .RPL_STATSQLINE => 217 | .RPL_STATSYLINE => 218
  | .RPL_ENDOFSTATS => 219 | .RPL_UMODEIS => 221 | .RPL_SERVICEINFO => 231 | .RPL_ENDOFSERVICES => 232
  | .RPL_SERVICE => 233 | .RPL_SERVLIST => 234 | .RPL_SERVLISTEND => 235 | .RPL_STATSVLINE => 240
  | .RPL_STATSLLINE => 241 | .RPL_STATSUPTIME => 242 | .RPL_STATSONLINE => 243 | .RPL_STATSHLINE => 244
  | .RPL_STATSSLINE => 245 | .RPL_STATSPING => 246 | .RPL_STATSBLINE => 247 | .RPL_STATSDLINE => 250
  | .RPL_LUSERCLIENT => 251 | .RPL_LUSEROP => 252 | .RPL_LUSERUNKNOWN => 253
  | .RPL_LUSERCHANNELS => 254 | .RPL_LUSERME => 255 | .RPL_ADMINME => 256 | .RPL_ADMINLOC1 => 257
  | .RPL_ADMINLOC2 => 258 | .RPL_ADMINEMAIL => 259 | .RPL_TRACELOG => 261 | .RPL_TRACEEND => 262
  | .RPL_TRYAGAIN => 263 | .RPL_NONE => 300 | .RPL_AWAY => 301 | .RPL_USERHOST => 302
  | .RPL_ISON => 303 | .RPL_UNAWAY => 305 | .RPL_NOWAWAY => 306 | .RPL_WHOISUSER => 311
  | .RPL_WHOISSERVER => 312 | .RPL_WHOISOPERATOR => 313 | .RPL_WHOWASUSER => 314 | .RPL_ENDOFWHO => 315
  | .RPL_WHOISCHANOP => 316 | .RPL_WHOISIDLE => 317 | .RPL_ENDOFWHOIS => 318
  | .RPL_WHOISCHANNELS => 319 | .RPL_LISTSTART => 321 | .RPL_LIST => 322 | .RPL_LISTEND => 323
  | .RPL_CHANNELMODEIS => 324 | .RPL_UNIQOPIS => 325 | .RPL_NOTOPIC => 331 | .RPL_TOPIC => 332
  | .RPL_INVITING => 341 | .RPL_SUMMONING => 342 | .RPL_INVITELIST => 346 | .RPL_ENDOFINVITELIST => 347
  | .RPL_EXCEPTLIST => 348 | .RPL_ENDOFEXCEPTLIST => 349 | .RPL_VERSION => 351 | .RPL_WHOREPLY => 352
  | .RPL_NAMREPLY => 353 | .RPL_KILLDONE => 361 | .RPL_CLOSING => 362 | .RPL_CLOSEEND => 363
  | .RPL_LINKS => 364 | .RPL_ENDOFLINKS => 365 | .RPL_ENDOFNAMES => 366 | .RPL_BANLIST => 367
  | .RPL_ENDOFBANLIST => 368 | .RPL_ENDOFWHOWAS => 369 | .RPL_INFO => 371 | .RPL_MOTD => 372
  | .RPL_INFOSTART => 373 | .RPL_ENDOFINFO => 374 | .RPL_MOTDSTART => 375 | .RPL_ENDOFMOTD => 376
  | .RPL_YOUREOPER => 381 | .RPL_REHASHING => 382 | .RPL_YOURESERVICE => 383 | .RPL_MYPORTIS => 384
  | .RPL_TIME => 391 | .RPL_USERSSTART => 392 | .RPL_USERS => 393 | .RPL_ENDOFUSERS => 394
  | .RPL_NOUSERS => 395 | .ERR_NOSUCHNICK => 401 | .ERR_NOSUCHSERVER => 402 | .ERR_NOSUCHCHANNEL => 403
  | .ERR_CANNOTSENDTOCHAN => 404 | .ERR_TOOMANYCHANNELS => 405 | .ERR_WASNOSUCHNICK => 406
  | .ERR_TOOMANYTARGETS => 407 | .ERR_NOSUCHSERVICE => 408 | .ERR_NOORIGIN => 409
  | .ERR_NORECIPIENT => 411 | .ERR_NOTEXTTOSEND => 412 | .ERR_NOTOPLEVEL => 413
  | .ERR_WILDTOPLEVEL => 414 | .ERR_BADMASK => 415 | .ERR_UNKNOWNCOMMAND => 421 | .ERR_NOMOTD => 422
  | .ERR_NOADMININFO => 423 | .ERR_FILEERROR => 424 | .ERR_NONICKNAMEGIVEN => 431
  | .ERR_ERRONEUSNICKNAME => 432 | .ERR_NICKNAMEINUSE => 433 | .ERR_NICKCOLLISION => 436
  | .ERR_UNAVAILRESOURCE => 437 | .ERR_USERNOTINCHANNEL => 441 | .ERR_NOTONCHANNEL => 442
  | .ERR_USERONCHANNEL => 443 | .ERR_NOLOGIN => 444 | .ERR_SUMMONDISABLED => 445
  | .ERR_USERSDISABLED => 446 | .ERR_NOTREGISTERED => 451 | .ERR_NEEDMOREPARAMS => 461
  | .ERR_ALREADYREGISTERED => 462 | .ERR_NOPERMFORHOST => 463 | .ERR_PASSWDMISMATCH => 464
  | .ERR_YOUREBANNEDCREEP => 465 | .ERR_YOUWILLBEBANNED => 466 | .ERR_KEYSET => 467
  | .ERR_CHANNELISFULL => 471 | .ERR_UNKNOWNMODE => 472 | .ERR_INVITEONLYCHAN => 473
  | .ERR_BANNEDFROMCHAN => 474 | .ERR_BADCHANNELKEY => 475 | .ERR_BADCHANMASK => 476
  | .ERR_NOCHANMODES => 477 | .ERR_BANLISTFULL => 478 | .ERR_NOPRIVILEGES => 481
  | .ERR_CHANOPPRIVSNEEDED => 482 | .ERR_CANTKILLSERVER => 483 | .ERR_RESTRICTED => 484
  | .ERR_UNIQOPPRIVSNEEDED => 485 | .ERR_NOOPERHOST => 491 | .ERR_NOSERVICEHOST => 492
  | .ERR_UMODEUNKNOWNFLAG => 501 | .ERR_USERSDONTMATCH => 502

def all : List IrcCommand :=
  [.CMD_UNKNOWN, .RPL_WELCOME, .RPL_YOURHOST, .RPL_CREATED, .RPL_MYINFO, .RPL_BOUNCE, .MSG_PASS,
   .MSG_NICK, .MSG_USER, .MSG_OPER, .MSG_MODE, .MSG_SERVICE, .MSG_QUIT, .MSG_SQUIT, .MSG_JOIN,
   .MSG_PART, .MSG_TOPIC, .MSG_NAMES, .MSG_LIST, .MSG_INVITE, .MSG_KICK, .MSG_PRIVMSG, .MSG_NOTICE,
   .MSG_MOTD, .MSG_LUSERS, .MSG_VERSION, .MSG_STATS, .MSG_LINKS, .MSG_TIME, .MSG_CONNECT, .MSG_TRACE,
   .MSG_ADMIN, .MSG_INFO, .MSG_SERVLIST, .MSG_SQUERY, .MSG_WHO, .MSG_WHOIS, .MSG_WHOWAS, .MSG_KILL,
   .MSG_PING, .MSG_PONG, .MSG_ERROR, .MSG_AWAY, .MSG_REHASH, .MSG_DIE, .MSG_RESTART, .MSG_SUMMON,
   .MSG_USERS, .MSG_WALLOPS, .MSG_USERHOST, .MSG_ISON, .RPL_TRACELINK, .RPL_TRACECONNECTING,
   .RPL_TRACEHANDSHAKE, .RPL_TRACEUNKNOWN, .RPL_TRACEOPERATOR, .RPL_TRACEUSER, .RPL_TRACESERVER,
   .RPL_TRACESERVICE, .RPL_TRACENEWTYPE, .RPL_TRACECLASS, .RPL_TRACECONNECT, .RPL_STATSLINKINFO,
   .RPL_STATSCOMMANDS, .RPL_STATSCLINE, .RPL_STATSNLINE, .RPL_STATSILINE, .RPL_STATSKLINE,
   .RPL_STATSQLINE, .RPL_STATSYLINE, .RPL_ENDOFSTATS, .RPL_UMODEIS, .RPL_SERVICEINFO,
   .RPL_ENDOFSERVICES, .RPL_SERVICE, .RPL_SERVLIST, .RPL_SERVLISTEND, .RPL_STATSVLINE, .RPL_STATSLLINE,
   .RPL_STATSUPTIME, .RPL_STATSONLINE, .RPL_STATSHLINE, .RPL_STATSSLINE, .RPL_STATSPING,
   .RPL_STATSBLINE, .RPL_STATSDLINE, .RPL_LUSERCLIENT, .RPL_LUSEROP, .RPL_LUSERUNKNOWN,
   .RPL_LUSERCHANNELS, .RPL_LUSERME, .RPL_ADMINME, .RPL_ADMINLOC1, .RPL_ADMINLOC2, .RPL_ADMINEMAIL,
   .RPL_TRACELOG, .RPL_TRACEEND, .RPL_TRYAGAIN, .RPL_NONE, .RPL_AWAY, .RPL_USERHOST, .RPL_ISON,
   .RPL_UNAWAY, .RPL_NOWAWAY, .RPL_WHOISUSER, .RPL_WHOISSERVER, .RPL_WHOISOPERATOR, .RPL_WHOWASUSER,
   .RPL_ENDOFWHO, .RPL_WHOISCHANOP, .RPL_WHOISIDLE, .RPL_ENDOFWHOIS, .RPL_WHOISCHANNELS,
   .RPL_LISTSTART, .RPL_LIST, .RPL_LISTEND, .RPL_CHANNELMODEIS, .RPL_UNIQOPIS, .RPL_NOTOPIC,
   .RPL_TOPIC, .RPL_INVITING, .RPL_SUMMONING, .RPL_INVITELIST, .RPL_ENDOFINVITELIST, .RPL_EXCEPTLIST,
   .RPL_ENDOFEXCEPTLIST, .RPL_VERSION, .RPL_WHOREPLY, .RPL_NAMREPLY, .RPL_KILLDONE, .RPL_CLOSING,
   .RPL_CLOSEEND, .RPL_LINKS, .RPL_ENDOFLINKS, .RPL_ENDOFNAMES, .RPL_BANLIST, .RPL_ENDOFBANLIST,
   .RPL_ENDOFWHOWAS, .RPL_INFO, .RPL_MOTD, .RPL_INFOSTART, .RPL_ENDOFINFO, .RPL_MOTDSTART,
   .RPL_ENDOFMOTD, .RPL_YOUREOPER, .RPL_REHASHING, .RPL_YOURESERVICE, .RPL_MYPORTIS, .RPL_TIME,
   .RPL_USERSSTART, .RPL_USERS, .RPL_ENDOFUSERS, .RPL_NOUSERS, .ERR_NOSUCHNICK, .ERR_NOSUCHSERVER,
   .ERR_NOSUCHCHANNEL, .ERR_CANNOTSENDTOCHAN, .ERR_TOOMANYCHANNELS, .ERR_WASNOSUCHNICK,
   .ERR_TOOMANYTARGETS, .ERR_NOSUCHSERVICE, .ERR_NOORIGIN, .ERR_NORECIPIENT, .ERR_NOTEXTTOSEND,
   .ERR_NOTOPLEVEL, .ERR_WILDTOPLEVEL, .ERR_BADMASK, .ERR_UNKNOWNCOMMAND, .ERR_NOMOTD,
   .ERR_NOADMININFO, .ERR_FILEERROR, .ERR_NONICKNAMEGIVEN, .ERR_ERRONEUSNICKNAME, .ERR_NICKNAMEINUSE,
   .ERR_NICKCOLLISION, .ERR_UNAVAILRESOURCE, .ERR_USERNOTINCHANNEL, .ERR_NOTONCHANNEL,
   .ERR_USERONCHANNEL, .ERR_NOLOGIN, .ERR_SUMMONDISABLED, .ERR_USERSDISABLED, .ERR_NOTREGISTERED,
   .ERR_NEEDMOREPARAMS, .ERR_ALREADYREGISTERED, .ERR_NOPERMFORHOST, .ERR_PASSWDMISMATCH,
   .ERR_YOUREBANNEDCREEP, .ERR_YOUWILLBEBANNED, .ERR_KEYSET, .ERR_CHANNELISFULL, .ERR_UNKNOWNMODE,
   .ERR_INVITEONLYCHAN, .ERR_BANNEDFROMCHAN, .ERR_BADCHANNELKEY, .ERR_BADCHANMASK, .ERR_NOCHANMODES,
   .ERR_BANLISTFULL, .ERR_NOPRIVILEGES, .ERR_CHANOPPRIVSNEEDED, .ERR_CANTKILLSERVER, .ERR_RESTRICTED,
   .ERR_UNIQOPPRIVSNEEDED, .ERR_NOOPERHOST, .ERR_NOSERVICEHOST, .ERR_UMODEUNKNOWNFLAG,
   .ERR_USERSDONTMATCH]

/-- `IrcCommand_str`; `none` is a null result. -/
def str : IrcCommand → Option Bytes
  | .RPL_WELCOME => lit "001" | .RPL_YOURHOST => lit "002" | .RPL_CREATED => lit "003"
  | .RPL_MYINFO => lit "004" | .RPL_BOUNCE => lit "005" | .MSG_PASS => lit "PASS"
  | .MSG_NICK => lit "NICK" | .MSG_USER => lit "USER" | .MSG_OPER => lit "OPER"
  | .MSG_MODE => lit "MODE" | .MSG_SERVICE => lit "SERVICE" | .MSG_QUIT => lit "QUIT"
  | .MSG_SQUIT => lit "SQUIT" | .MSG_JOIN => lit "JOIN" | .MSG_PART => lit "PART"
  | .MSG_TOPIC => lit "TOPIC" | .MSG_NAMES => lit "NAMES" | .MSG_LIST => lit "LIST"
  | .MSG_INVITE => lit "INVITE" | .MSG_KICK => lit "KICK" | .MSG_PRIVMSG => lit "PRIVMSG"
  | .MSG_NOTICE => lit "NOTICE" | .MSG_MOTD => lit "MOTD" | .MSG_LUSERS => lit "LUSERS"
  | .MSG_VERSION => lit "VERSION" | .MSG_STATS => lit "STATS" | .MSG_LINKS => lit "LINKS"
  | .MSG_TIME => lit "TIME" | .MSG_CONNECT => lit "CONNECT" | .MSG_TRACE => lit "TRACE"
  | .MSG_ADMIN => lit "ADMIN" | .MSG_INFO => lit "INFO" | .MSG_SERVLIST => lit "SERVLIST"
  | .MSG_SQUERY => lit "SQUERY" | .MSG_WHO => lit "WHO" | .MSG_WHOIS => lit "WHOIS"
  | .MSG_WHOWAS => lit "WHOWAS" | .MSG_KILL => lit "KILL" | .MSG_PING => lit "PING"
  | .MSG_PONG => lit "PONG" | .MSG_ERROR => lit "ERROR" | .MSG_AWAY => lit "AWAY"
  | .MSG_REHASH => lit "REHASH" | .MSG_DIE => lit "DIE" | .MSG_RESTART => lit "RESTART"
  | .MSG_SUMMON => lit "SUMMON" | .MSG_USERS => lit "USERS" | .MSG_WALLOPS => lit "WALLOPS"
  | .MSG_USERHOST => lit "USERHOST" | .MSG_ISON => lit "ISON" | .RPL_TRACELINK => lit "200"
  | .RPL_TRACECONNECTING => lit "201" | .RPL_TRACEHANDSHAKE => lit "202"
  | .RPL_TRACEUNKNOWN => lit "203" | .RPL_TRACEOPERATOR => lit "204" | .RPL_TRACEUSER => lit "205"
  | .RPL_TRACESERVER => lit "206" | .RPL_TRACESERVICE => lit "207" | .RPL_TRACENEWTYPE => lit "208"
  | .RPL_TRACECLASS => lit "209" | .RPL_TRACECONNECT => lit "210" | .RPL_STATSLINKINFO => lit "211"
  | .RPL_STATSCOMMANDS => lit "212" | .RPL_STATSCLINE => lit "213" | .RPL_STATSNLINE => lit "214"
  | .RPL_STATSILINE => lit "215" | .RPL_STATSKLINE => lit "216" | .RPL_STATSQLINE => lit "217"
  | .RPL_STATSYLINE => lit "218" | .RPL_ENDOFSTATS => lit "219" | .RPL_UMODEIS => lit "221"
  | .RPL_SERVICEINFO => lit "231" | .RPL_ENDOFSERVICES => lit "232" | .RPL_SERVICE => lit "233"
  | .RPL_SERVLIST => lit "234" | .RPL_SERVLISTEND => lit "235" | .RPL_STATSVLINE => lit "240"
  | .RPL_STATSLLINE => lit "241" | .RPL_STATSUPTIME => lit "242" | .RPL_STATSONLINE => lit "243"
  | .RPL_STATSHLINE => lit "244" | .RPL_STATSSLINE => lit "245" | .RPL_STATSPING => lit "246"
  | .RPL_STATSBLINE => lit "247" | .RPL_STATSDLINE => lit "250" | .RPL_LUSERCLIENT => lit "251"
  | .RPL_LUSEROP => lit "252" | .RPL_LUSERUNKNOWN => lit "253" | .RPL_LUSERCHANNELS => lit "254"
  | .RPL_LUSERME => lit "255" | .RPL_ADMINME => lit "256" | .RPL_ADMINLOC1 => lit "257"
  | .RPL_ADMINLOC2 => lit "258" | .RPL_ADMINEMAIL => lit "259" | .RPL_TRACELOG => lit "261"
  | .RPL_TRACEEND => lit "262" | .RPL_TRYAGAIN => lit "263" | .RPL_NONE => lit "300"
  | .RPL_AWAY => lit "301" | .RPL_USERHOST => lit "302" | .RPL_ISON => lit "303"
  | .RPL_UNAWAY => lit "305" | .RPL_NOWAWAY => lit "306" | .RPL_WHOISUSER => lit "311"
  | .RPL_WHOISSERVER => lit "312" | .RPL_WHOISOPERATOR => lit "313" | .RPL_WHOWASUSER => lit "314"
  | .RPL_ENDOFWHO => lit "315" | .RPL_WHOISCHANOP => lit "316" | .RPL_WHOISIDLE => lit "317"
  | .RPL_ENDOFWHOIS => lit "318" | .RPL_WHOISCHANNELS => lit "319" | .RPL_LISTSTART => lit "321"
  | .RPL_LIST => lit "322" | .RPL_LISTEND => lit "323" | .RPL_CHANNELMODEIS => lit "324"
  | .RPL_UNIQOPIS => lit "325" | .RPL_NOTOPIC => lit "331" | .RPL_TOPIC => lit "332"
  | .RPL_INVITING => lit "341" | .RPL_SUMMONING => lit "342" | .RPL_INVITELIST => lit "346"
  | .RPL_ENDOFINVITELIST => lit "347" | .RPL_EXCEPTLIST => lit "348"
  | .RPL_ENDOFEXCEPTLIST => lit "349" | .RPL_VERSION => lit "351" | .RPL_WHOREPLY => lit "352"
  | .RPL_NAMREPLY => lit "353" | .RPL_KILLDONE => lit "361" | .RPL_CLOSING => lit "362"
  | .RPL_CLOSEEND => lit "363" | .RPL_LINKS => lit "364" | .RPL_ENDOFLINKS => lit "365"
  | .RPL_ENDOFNAMES => lit "366" | .RPL_BANLIST => lit "367" | .RPL_ENDOFBANLIST => lit "368"
  | .RPL_ENDOFWHOWAS => lit "369" | .RPL_INFO => lit "371" | .RPL_MOTD => lit "372"
  | .RPL_INFOSTART => lit "373" | .RPL_ENDOFINFO => lit "374" | .RPL_MOTDSTART => lit "375"
  | .RPL_ENDOFMOTD => lit "376" | .RPL_YOUREOPER => lit "381" | .RPL_REHASHING => lit "382"
  | .RPL_YOURESERVICE => lit "383" | .RPL_MYPORTIS => lit "384" | .RPL_TIME => lit "391"
  | .RPL_USERSSTART => lit "392" | .RPL_USERS => lit "393" | .RPL_ENDOFUSERS => lit "394"
  | .RPL_NOUSERS => lit "395" | .ERR_NOSUCHNICK => lit "401" | .ERR_NOSUCHSERVER => lit "402"
  | .ERR_NOSUCHCHANNEL => lit "403" | .ERR_CANNOTSENDTOCHAN => lit "404"
  | .ERR_TOOMANYCHANNELS => lit "405" | .ERR_WASNOSUCHNICK => lit "406"
  | .ERR_TOOMANYTARGETS => lit "407" | .ERR_NOSUCHSERVICE => lit "408" | .ERR_NOORIGIN => lit "409"
  | .ERR_NORECIPIENT => lit "411" | .ERR_NOTEXTTOSEND => lit "412" | .ERR_NOTOPLEVEL => lit "413"
  | .ERR_WILDTOPLEVEL => lit "414" | .ERR_BADMASK => lit "415" | .ERR_UNKNOWNCOMMAND => lit "421"
  | .ERR_NOMOTD => lit "422" | .ERR_NOADMININFO => lit "423" | .ERR_FILEERROR => lit "424"
  | .ERR_NONICKNAMEGIVEN => lit "431" | .ERR_ERRONEUSNICKNAME => lit "432"
  | .ERR_NICKNAMEINUSE => lit "433" | .ERR_NICKCOLLISION => lit "436"
  | .ERR_UNAVAILRESOURCE => lit "437" | .ERR_USERNOTINCHANNEL => lit "441"
  | .ERR_NOTONCHANNEL => lit "442" | .ERR_USERONCHANNEL => lit "443" | .ERR_NOLOGIN => lit "444"
  | .ERR_SUMMONDISABLED => lit "445" | .ERR_USERSDISABLED => lit "446"
  | .ERR_NOTREGISTERED => lit "451" | .ERR_NEEDMOREPARAMS => lit "461"
  | .ERR_ALREADYREGISTERED => lit "462" | .ERR_NOPERMFORHOST => lit "463"
  | .ERR_PASSWDMISMATCH => lit "464" | .ERR_YOUREBANNEDCREEP => lit "465"
  | .ERR_YOUWILLBEBANNED => lit "466" | .ERR_KEYSET => lit "467" | .ERR_CHANNELISFULL => lit "471"
  | .ERR_UNKNOWNMODE => lit "472" | .ERR_INVITEONLYCHAN => lit "473" | .ERR_BANNEDFROMCHAN => lit "474"
  | .ERR_BADCHANNELKEY => lit "475" | .ERR_BADCHANMASK => lit "476" | .ERR_NOCHANMODES => lit "477"
  | .ERR_BANLISTFULL => lit "478" | .ERR_NOPRIVILEGES => lit "481"
  | .ERR_CHANOPPRIVSNEEDED => lit "482" | .ERR_CANTKILLSERVER => lit "483"
  | .ERR_RESTRICTED => lit "484" | .ERR_UNIQOPPRIVSNEEDED => lit "485" | .ERR_NOOPERHOST => lit "491"
  | .ERR_NOSERVICEHOST => lit "492" | .ERR_UMODEUNKNOWNFLAG => lit "501"
  | .ERR_USERSDONTMATCH => lit "502" | .CMD_UNKNOWN => none

def named (cmd : Bytes) : List (String × IrcCommand) → IrcCommand
  | [] => .CMD_UNKNOWN
  | (name,self) :: rest => if cmd = lit name then self else named cmd rest

def ofCode (n : ℕ) : IrcCommand := (all.find? (fun self => self.code = n)).getD .CMD_UNKNOWN

/-- Three digits and nothing else. -/
def numeric (cmd : Bytes) : Bool :=
  match cmd with
  | [a,b,c] => isdigit a && isdigit b && isdigit c
  | _ => false

def parse (cmd : Bytes) : IrcCommand :=
  if numeric cmd then
    let self := atoi cmd
    if (self > 99 && self < 200) || (ofCode self).str = none then .CMD_UNKNOWN else ofCode self
  else
    match cmd.head?.map (fun c => Char.ofNat c.toNat) with
    | some 'A' => named cmd [("ADMIN",.MSG_ADMIN),("AWAY",.MSG_AWAY)]
    | some 'C' => named cmd [("CONNECT",.MSG_CONNECT)]
    | some 'D' => named cmd [("DIE",.MSG_DIE)]
    | some 'E' => named cmd [("ERROR",.MSG_ERROR)]
    | some 'I' => named cmd [("INFO",.MSG_INFO),("INVITE",.MSG_INVITE),("ISON",.MSG_ISON)]
    | some 'J' => named cmd [("JOIN",.MSG_JOIN)]
    | some 'K' => named cmd [("KICK",.MSG_KICK),("KILL",.MSG_KILL)]
    | some 'L' => named cmd [("LINKS",.MSG_LINKS),("LIST",.MSG_LIST),("LUSERS",.MSG_LUSERS)]
    | some 'M' => named cmd [("MODE",.MSG_MODE),("MOTD",.MSG_MOTD)]
    | some 'N' => named cmd [("NAMES",.MSG_NAMES),("NICK",.MSG_NICK),("NOTICE",.MSG_NOTICE)]
    | some 'O' => named cmd [("OPER",.MSG_OPER)]
    | some 'P' => named cmd [("PASS",.MSG_PASS),("PART",.MSG_PART),("PING",.MSG_PING),
        ("PONG",.MSG_PONG),("PRIVMSG",.MSG_PRIVMSG)]
    | some 'Q' => named cmd [("QUIT",.MSG_QUIT)]
    | some 'R' => named cmd [("REHASH",.MSG_REHASH),("RESTART",.MSG_RESTART)]
    | some 'S' => named cmd [("SERVICE",.MSG_SERVICE),("SERVLIST",.MSG_SERVLIST),("SQUERY",.MSG_SQUERY),
        ("SQUIT",.MSG_SQUIT),("STATS",.MSG_STATS),("SUMMON",.MSG_SUMMON)]
    | some 'T' => named cmd [("TIME",.MSG_TIME),("TOPIC",.MSG_TOPIC),("TRACE",.MSG_TRACE)]
    | some 'U' => named cmd [("USER",.MSG_USER),("USERHOST",.MSG_USERHOST),("USERS",.MSG_USERS)]
    | some 'V' => named cmd [("VERSION",.MSG_VERSION)]
    | some 'W' => named cmd [("WALLOPS",.MSG_WALLOPS),("WHO",.MSG_WHO),("WHOIS",.MSG_WHOIS),
        ("WHOWAS",.MSG_WHOWAS)]
    | _ => .CMD_UNKNOWN

end IrcCommand
end LibIrcBot
